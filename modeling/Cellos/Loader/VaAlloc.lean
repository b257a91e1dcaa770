import Cellos.Lib

/-!
# Cellos.Loader.VaAlloc

The virtual-address slots of cells (`loader/va_alloc.rs`).

A slot is taken from the free bitmap when it has one and from the bump counter
otherwise, without a lock: `alloc_cell_va` and `free_cell_va` are sequences of single
atomic operations that any number of callers interleave, and one step is one of them.
The compare-and-exchange of the bitmap is the weak one, so it may fail although the word
did not change.

Every slot below the bump counter is accounted for exactly once: handed out, in the
bitmap, or in the hands of a call that gives it back.
-/

namespace Cellos.Loader

open Lib List Function

/-- The constants of a build: `CELL_VA_START`, `CELL_VA_STRIDE` and `MAX_SLOTS`. -/
structure Profile where
  (start stride slots : Nat)
  stride_pos : 0 < stride
  /-- The window ends below the user half. -/
  fits : start + slots * stride ≤ 0x40_0000_0000

namespace Profile

/-- 512 slots of 32 MiB. -/
def embedded : Profile := ⟨0x1_0000_0000, 32 * 1024 * 1024, 512, by decide, by decide⟩

/-- `BITMAP_WORDS`. -/
def bitmapWords (p : Profile) : Nat := (p.slots + 63) / 64

/-- The address of a slot. -/
def base (p : Profile) (slot : Nat) : Nat := p.start + slot * p.stride

/-- `slot_end`: the exclusive end of a valid reservation. -/
def slotEnd (p : Profile) (base : Nat) : Option Nat :=
  if base < p.start then none
  else if (base - p.start) % p.stride ≠ 0 ∨ p.slots ≤ (base - p.start) / p.stride then none
  else if base + p.stride < 2 ^ 64 then some (base + p.stride) else none

/-- The address of a slot is a valid reservation that ends inside the window. -/
theorem slotEnd_base (p : Profile) (h : slot < p.slots) :
    p.slotEnd (p.base slot) = some (p.base (slot + 1)) := by
  have hpos := p.stride_pos
  have hfits := p.fits
  have hle : (slot + 1) * p.stride ≤ p.slots * p.stride := Nat.mul_le_mul_right _ h
  have hnext : p.base (slot + 1) = p.base slot + p.stride := by
    simp only [base, Nat.add_mul, Nat.one_mul, Nat.add_assoc]
  have hlow : p.start ≤ p.base slot := Nat.le_add_right _ _
  have hoffset : p.base slot - p.start = slot * p.stride := Nat.add_sub_cancel_left _ _
  have hend : p.base slot + p.stride < 2 ^ 64 := by
    rw [← hnext, base]
    omega
  unfold slotEnd
  rw [if_neg (by omega), hoffset, Nat.mul_mod_left, Nat.mul_div_cancel _ hpos,
    if_neg (by omega), if_pos hend, hnext]

end Profile

/-- A build on which `callers` calls can be in progress at once, each with a stack outside of the
window, in an address space of 2 ^ 64 bytes. -/
structure Machine extends Profile where
  callers : Nat
  room : callers + slots * stride < 2 ^ 64

theorem Machine.callers_add_slots_lt (m : Machine) : m.callers + m.slots < 2 ^ 64 := by
  have hroom := m.room
  have : m.slots ≤ m.slots * m.stride := Nat.le_mul_of_pos_right _ m.stride_pos
  omega

/-- What a call does next. -/
inductive Phase where
  | idle
  /-- `alloc_cell_va` loads this word of the bitmap, or adds one to the counter when it has
  seen every word. -/
  | scanning (word : Nat)
  /-- `alloc_cell_va` read `val` there and tries to take its lowest slot. -/
  | claiming (word : Nat) (val : BitVec 64)
  /-- `alloc_cell_va` takes its increment back. -/
  | undoing
  /-- `free_cell_va` tries to lower the counter. -/
  | freeing (slot : Nat)
  /-- `free_cell_va` sets the bit of the slot. -/
  | publishing (slot : Nat)
deriving DecidableEq

open Phase

/-- The allocator, the calls in progress, and the slots that were handed out and not given
back yet. -/
structure World (m : Machine) where
  bump : Nat
  free : List (BitVec 64)
  calls : Fin m.callers → Phase
  live : List Nat

/-- The state before the first call. -/
def boot (m : Machine) : World m where
  bump := 0
  free := replicate m.bitmapWords 0#64
  calls := fun _ => .idle
  live := []

inductive Op (m : Machine) where
  | alloc (c : Fin m.callers)
  | free (c : Fin m.callers) (base : Nat)
  /-- The next atomic operation of a call; a weak compare-and-exchange may fail. -/
  | turn (c : Fin m.callers) (spurious : Bool)

/-- What the caller sees. -/
inductive Response where
  | pending
  | allocated (base : Nat)
  /-- `alloc_cell_va` returned `None`. -/
  | exhausted
  | freed
deriving DecidableEq

namespace World

variable {m : Machine}

/-- A call goes on in another phase. -/
def goto (w : World m) (c : Fin m.callers) (phase : Phase) : World m :=
  { w with calls := Function.update w.calls c phase }

/-- `alloc_cell_va` holds the value `val` of a word. -/
def inspect (m : Machine) (word : Nat) (val : BitVec 64) : Phase :=
  if val = 0#64 ∨ m.slots ≤ word * 64 + val.ctz.toNat then .scanning (word + 1)
  else .claiming word val

/-- A call hands out a slot and returns its address. -/
def handOut (w : World m) (c : Fin m.callers) (slot : Nat) : Response × World m :=
  (.allocated (m.base slot), { w.goto c .idle with live := w.live ++ [slot] })

/-- The next atomic operation of a call. -/
def turn (w : World m) (c : Fin m.callers) (spurious : Bool) : Option (Response × World m) :=
  match w.calls c with
  | .idle => none
  | .scanning word =>
    if word < m.bitmapWords then
      some (.pending, w.goto c (inspect m word (w.free.getD word 0#64)))
    else
      let bumped := { w with bump := (w.bump + 1) % 2 ^ 64 }
      if m.slots ≤ w.bump then some (.pending, bumped.goto c .undoing)
      else some (bumped.handOut c w.bump)
  | .claiming word val =>
    if w.free.getD word 0#64 = val ∧ spurious = false then
      let slot := word * 64 + val.ctz.toNat
      some ({ w with free := clearBit w.free slot }.handOut c slot)
    else some (.pending, w.goto c (inspect m word (w.free.getD word 0#64)))
  | .undoing => some (.exhausted, { w with bump := (w.bump + (2 ^ 64 - 1)) % 2 ^ 64 }.goto c .idle)
  | .freeing slot =>
    if w.bump = slot + 1 then some (.freed, { w with bump := slot }.goto c .idle)
    else some (.pending, w.goto c (.publishing slot))
  | .publishing slot => some (.freed, { w with free := setBit w.free slot }.goto c .idle)

end World

/-- One step: a call begins, or a call in progress performs its next atomic operation. -/
def step (m : Machine) (w : World m) : Op m → Option (Response × World m)
  | .alloc c => if w.calls c = .idle then some (.pending, w.goto c (.scanning 0)) else none
  | .free c base =>
    if w.calls c = .idle then
      match m.slotEnd base with
      | none => some (.freed, w)
      | some _ =>
        let slot := (base - m.start) / m.stride
        some (.pending, { w.goto c (.freeing slot) with live := w.live.erase slot })
    else none
  | .turn c spurious => w.turn c spurious

/-- Only a slot that is handed out is given back. -/
def releasesLive {m : Machine} (w : World m) : Op m → Bool
  | .free _ base => (m.slotEnd base).isSome ∧ (base - m.start) / m.stride ∈ w.live
  | _ => true

/-! ## every slot is accounted for -/

/-- A call that has yet to take its increment back. -/
def Phase.undoes : Phase → Nat
  | .undoing => 1
  | _ => 0

/-- A call that gives the slot back. -/
def Phase.returns (slot : Nat) : Phase → Nat
  | .freeing s | .publishing s => if s = slot then 1 else 0
  | _ => 0

variable {word : Nat} {spurious : Bool}

namespace World

variable {m : Machine} {w : World m} {c : Fin m.callers}

/-- By how much the counter is ahead. -/
def undos (w : World m) : Nat := tally Phase.undoes w.calls

/-- How often a slot is handed out, on its way back or in the bitmap. -/
def holdings (w : World m) (slot : Nat) : Nat :=
  w.live.count slot + tally (Phase.returns slot) w.calls + (bit w.free slot).toNat

theorem undos_le (w : World m) : w.undos ≤ m.callers :=
  tally_le fun phase => by cases phase <;> simp [undoes]

/-- No call is in progress. -/
def Quiet (w : World m) : Prop := ∀ c, w.calls c = .idle

theorem Quiet.undos (h : w.Quiet) : w.undos = 0 := tally_eq_zero fun c => by rw [h c]; rfl

theorem Quiet.holdings (h : w.Quiet) (slot : Nat) :
    w.holdings slot = w.live.count slot + (bit w.free slot).toNat := by
  have hzero : tally (returns slot) w.calls = 0 := tally_eq_zero fun c => by rw [h c]; rfl
  unfold World.holdings
  omega

/-- What a call in progress may rely on. -/
def Sensible (m : Machine) : Phase → Prop
  | .claiming word val => val ≠ 0#64 ∧ word * 64 + val.ctz.toNat < m.slots
  | _ => True

theorem sensible_inspect (word : Nat) (val : BitVec 64) : Sensible m (inspect m word val) := by
  unfold inspect
  split
  · trivial
  · next h => exact ⟨fun hz => h (.inl hz), by omega⟩

/-- Every slot below `minted` has exactly one place, every other slot has none, and the counter is
ahead of `minted` only when it ran past the last slot. -/
structure Accounted (minted : Nat) (w : World m) : Prop where
  words : w.free.length = m.bitmapWords
  bump : w.bump = minted + w.undos
  le_slots : minted ≤ m.slots
  ahead : 0 < w.undos → minted = m.slots
  owned : ∀ slot, w.holdings slot = if slot < minted then 1 else 0
  calls : ∀ c, Sensible m (w.calls c)

attribute [simp] Phase.returns Phase.undoes World.goto

namespace Accounted

variable (a : Accounted minted w)

include a

theorem lt_minted (h : 0 < w.holdings slot) : slot < minted := by
  have howned := a.owned slot
  split at howned
  · assumption
  · omega

theorem word_lt (h : slot < minted) : slot / 64 < w.free.length := by
  have hslots := a.le_slots
  rw [a.words, Profile.bitmapWords]
  omega

/-- A call moves on.  The counter follows the calls that are ahead of it, and a slot that
changes places keeps its count. -/
theorem move (hcalls : w'.calls = update w.calls c phase) (hs : Sensible m phase)
    (hwords : w'.free.length = w.free.length)
    (hbump : w'.bump + (w.calls c).undoes + minted = w.bump + phase.undoes + minted')
    (hminted : minted' ≤ m.slots) (hahead : 0 < w.undos + phase.undoes → minted' = m.slots)
    (hslots : ∀ slot, w'.live.count slot + phase.returns slot + (bit w'.free slot).toNat +
        (if slot < minted then 1 else 0) =
      w.live.count slot + (w.calls c).returns slot + (bit w.free slot).toNat +
        (if slot < minted' then 1 else 0)) :
    Accounted minted' w' := by
  have hold := a.bump
  have hundos : w'.undos + (w.calls c).undoes = w.undos + phase.undoes := by
    simp only [World.undos, hcalls]
    exact tally_update undoes w.calls c phase
  refine ⟨hwords.trans a.words, by omega, hminted, fun h => hahead (by omega), fun slot => ?_,
    fun d => ?_⟩
  · have hreturns := tally_update (returns slot) w.calls c phase
    have howned := a.owned slot
    have hslot := hslots slot
    simp only [World.holdings, hcalls] at howned ⊢
    omega
  · rw [hcalls, update_apply]
    split
    · exact hs
    · exact a.calls d

/-- A step that moves no slot. -/
theorem goto (hundo : phase.undoes = (w.calls c).undoes)
    (hreturn : ∀ slot, phase.returns slot = (w.calls c).returns slot) (hs : Sensible m phase) :
    Accounted minted (w.goto c phase) := by
  refine a.move rfl hs rfl ?_ a.le_slots (fun h => a.ahead ?_) fun slot => ?_
  · show w.bump + (w.calls c).undoes + minted = w.bump + phase.undoes + minted
    omega
  · have := weight_le_tally undoes w.calls c
    change (w.calls c).undoes ≤ w.undos at this
    omega
  · rw [hreturn]
    rfl

/-- The counter hands out its next slot. -/
theorem mint (hphase : w.calls c = .scanning word) (h : w.bump < m.slots) :
    Accounted (minted + 1) ({ w with bump := (w.bump + 1) % 2 ^ 64 }.handOut c w.bump).2 := by
  have hroom := m.callers_add_slots_lt
  have hold := a.bump
  have hzero : w.undos = 0 := by
    by_contra hne
    have := a.ahead (by omega)
    omega
  refine a.move rfl trivial rfl ?_ (by omega) (fun hpos => ?_) fun slot => ?_
  · show (w.bump + 1) % 2 ^ 64 + (w.calls c).undoes + minted = w.bump + 0 + (minted + 1)
    rw [hphase, Nat.mod_eq_of_lt (by omega)]
    simp only [undoes]
    omega
  · simp [hzero] at hpos
  · simp only [handOut, World.goto, hphase, returns, count_append, count_singleton, beq_iff_eq]
    split <;> split <;> split <;> omega

/-- The counter runs past the last slot. -/
theorem overrun (hphase : w.calls c = .scanning word) (h : m.slots ≤ w.bump) :
    Accounted minted ({ w with bump := (w.bump + 1) % 2 ^ 64 }.goto c .undoing) := by
  have hroom := m.callers_add_slots_lt
  have hold := a.bump
  have hfull : minted = m.slots := by
    by_cases hzero : w.undos = 0
    · have := a.le_slots
      omega
    · exact a.ahead (by omega)
  -- this call is not among the calls that are ahead
  have hundos : w.undos + 1 ≤ m.callers := by
    have hle := undos_le (w.goto c .undoing)
    have := tally_update undoes w.calls c .undoing
    simp only [World.undos, World.goto, hphase, undoes] at hle this ⊢
    omega
  refine a.move rfl trivial rfl ?_ a.le_slots (fun _ => hfull) fun slot => ?_
  · rw [hphase, Nat.mod_eq_of_lt (by omega)]
    rfl
  · simp only [World.goto, hphase, returns]

/-- The increment is taken back. -/
theorem undo (hphase : w.calls c = .undoing) :
    Accounted minted ({ w with bump := (w.bump + (2 ^ 64 - 1)) % 2 ^ 64 }.goto c .idle) := by
  have hroom := m.callers_add_slots_lt
  have hold := a.bump
  have hle := a.le_slots
  have hundos := w.undos_le
  have hpos : 1 ≤ w.undos := by
    have := weight_le_tally undoes w.calls c
    rwa [hphase] at this
  have hbump : (w.bump + (2 ^ 64 - 1)) % 2 ^ 64 = w.bump - 1 := by omega
  rw [hbump]
  refine a.move rfl trivial rfl ?_ a.le_slots (fun _ => a.ahead hpos) fun slot => ?_
  · show w.bump - 1 + (w.calls c).undoes + minted = w.bump + 0 + minted
    rw [hphase]
    simp only [undoes]
    omega
  · simp only [World.goto, hphase, returns]

/-- A slot of the bitmap is handed out. -/
theorem claim (hphase : w.calls c = .claiming word val)
    (h : w.free.getD word 0#64 = val) : Accounted minted
      ({ w with free := clearBit w.free (word * 64 + val.ctz.toNat) }.handOut c
        (word * 64 + val.ctz.toNat)).2 := by
  obtain ⟨hval, -⟩ : Sensible m (.claiming word val) := hphase ▸ a.calls c
  have hbit : bit w.free (word * 64 + val.ctz.toNat) = true := by
    subst h
    exact bit_ctz hval
  generalize word * 64 + val.ctz.toNat = slot at hbit ⊢
  have hlt : slot < minted := a.lt_minted (by simp [World.holdings, hbit])
  refine a.move rfl trivial (by simp [handOut]) ?_ a.le_slots a.ahead fun s => ?_
  · rw [hphase]
    rfl
  simp only [handOut, World.goto, hphase, returns, count_append, count_singleton,
    bit_clearBit (a.word_lt hlt)]
  by_cases hs : s = slot
  · subst hs
    simp [hbit]
  · simp [hs, Ne.symm hs]

/-- The last slot goes back to the counter. -/
theorem lower (hphase : w.calls c = .freeing slot) (h : w.bump = slot + 1) :
    Accounted slot ({ w with bump := slot }.goto c .idle) := by
  have hold := a.bump
  have hlt : slot < minted := by
    have := weight_le_tally (returns slot) w.calls c
    rw [hphase] at this
    simp only [returns, if_true] at this
    exact a.lt_minted (by unfold World.holdings; omega)
  have hle := a.le_slots
  refine a.move rfl trivial rfl ?_ (by omega) (fun hpos => ?_) fun s => ?_
  · show slot + (w.calls c).undoes + minted = w.bump + 0 + slot
    rw [hphase]
    simp only [undoes]
    omega
  · simp only [undoes] at hpos
    omega
  · simp only [World.goto, hphase, returns]
    split <;> split <;> split <;> omega

/-- A slot goes to the bitmap. -/
theorem publish (hphase : w.calls c = .publishing slot) :
    Accounted minted ({ w with free := setBit w.free slot }.goto c .idle) := by
  have hreturns := weight_le_tally (returns slot) w.calls c
  rw [hphase] at hreturns
  simp only [returns, if_true] at hreturns
  have hlt : slot < minted := a.lt_minted (by unfold World.holdings; omega)
  have hclear : bit w.free slot = false := by
    have howned := a.owned slot
    unfold World.holdings at howned
    rw [if_pos hlt] at howned
    cases hbit : bit w.free slot with
    | false => rfl
    | true =>
      rw [hbit, Bool.toNat_true] at howned
      omega
  refine a.move rfl trivial (by simp) ?_ a.le_slots a.ahead fun s => ?_
  · rw [hphase]
    rfl
  simp only [World.goto, hphase, returns, bit_setBit (a.word_lt hlt)]
  by_cases hs : s = slot
  · subst hs
    simp [hclear]
  · simp [hs, Ne.symm hs]

/-- A live slot is given back. -/
theorem release (hphase : w.calls c = .idle) (hlive : slot ∈ w.live) :
    Accounted minted { w.goto c (.freeing slot) with live := w.live.erase slot } := by
  have hcount : 0 < w.live.count slot := count_pos_iff.mpr hlive
  refine a.move rfl trivial rfl ?_ a.le_slots a.ahead fun s => ?_
  · rw [hphase]
    rfl
  simp only [World.goto, hphase, returns, count_erase, beq_iff_eq]
  by_cases hs : slot = s
  · subst hs
    simp only [if_true]
    omega
  · simp [hs]

/-- **One atomic operation** keeps every slot accounted for, and hands out slots of the
window only. -/
theorem turn (h : w.turn c spurious = some (r, w')) : (∃ minted', Accounted minted' w') ∧
      ∀ base, r = .allocated base → ∃ slot < m.slots, base = m.base slot := by
  unfold World.turn at h
  split at h
  · cases h
  · next hphase =>
    split at h
    · cases h
      refine ⟨⟨minted, a.goto ?_ ?_ (sensible_inspect _ _)⟩, by simp⟩ <;>
        simp only [inspect, hphase] <;> split <;> simp
    split at h
    · next hfull =>
      cases h
      exact ⟨⟨minted, a.overrun hphase hfull⟩, by simp⟩
    · next hroom =>
      cases h
      exact ⟨⟨minted + 1, a.mint hphase (by omega)⟩,
        fun base hbase => ⟨w.bump, by omega, (Response.allocated.inj hbase).symm⟩⟩
  · next word val hphase =>
    split at h
    · next hsame =>
      cases h
      obtain ⟨-, hlt⟩ : Sensible m (.claiming word val) := hphase ▸ a.calls c
      exact ⟨⟨minted, a.claim hphase hsame.1⟩,
        fun base hbase => ⟨_, hlt, (Response.allocated.inj hbase).symm⟩⟩
    · cases h
      refine ⟨⟨minted, a.goto ?_ ?_ (sensible_inspect _ _)⟩, by simp⟩ <;>
        simp only [inspect, hphase] <;> split <;> simp
  · next hphase =>
    cases h
    exact ⟨⟨minted, a.undo hphase⟩, by simp⟩
  · next slot hphase =>
    split at h
    · next hlast =>
      cases h
      exact ⟨⟨slot, a.lower hphase hlast⟩, by simp⟩
    · cases h
      exact ⟨⟨minted, a.goto (by simp [hphase]) (by simp [hphase]) trivial⟩, by simp⟩
  · next hphase =>
    cases h
    exact ⟨⟨minted, a.publish hphase⟩, by simp⟩

end Accounted

end World

section

variable {m : Machine} {w w' : World m}

theorem bit_boot (slot : Nat) : bit (boot m).free slot = false := by
  simp only [bit, boot, getD_eq_getElem?_getD, getElem?_replicate]
  split <;> simp

theorem quiet_boot : (boot m).Quiet := fun _ => rfl

theorem accounted_boot : (boot m).Accounted 0 where
  words := length_replicate
  bump := by rw [quiet_boot.undos]; rfl
  le_slots := Nat.zero_le _
  ahead := by simp [quiet_boot.undos]
  owned := by
    intro slot
    rw [quiet_boot.holdings, bit_boot]
    rfl
  calls := fun _ => trivial

/-- The whole window, in every state of a run that gives back live slots only. -/
structure Sound (w : World m) (responses : List Response) : Prop where
  accounted : ∃ minted, w.Accounted minted
  inside : ∀ base, .allocated base ∈ responses → ∃ slot < m.slots, base = m.base slot

theorem sound_step (s : Sound w responses) (hlive : releasesLive w op = true)
    (h : step m w op = some (r, w')) : Sound w' (responses ++ [r]) := by
  obtain ⟨minted, a⟩ := s.accounted
  suffices hstep : (∃ minted', w'.Accounted minted') ∧
      ∀ base, r = .allocated base → ∃ slot < m.slots, base = m.base slot by
    refine ⟨hstep.1, fun base hbase => ?_⟩
    rcases mem_append.mp hbase with hold | hnew
    · exact s.inside base hold
    · exact hstep.2 base (mem_singleton.mp hnew).symm
  cases op with
  | alloc =>
    simp only [step] at h
    split at h
    · next hidle =>
      cases h
      exact ⟨⟨minted, a.goto (by simp [hidle]) (by simp [hidle]) trivial⟩, by simp⟩
    · cases h
  | free c base =>
    simp only [step] at h
    split at h
    · next hidle =>
      split at h
      · cases h
        exact ⟨⟨minted, a⟩, by simp⟩
      · cases h
        have hmem : (base - m.start) / m.stride ∈ w.live := (of_decide_eq_true hlive).2
        exact ⟨⟨minted, a.release hidle hmem⟩, by simp⟩
    · cases h
  | turn => exact a.turn h

/-! ## one call at a time -/

/-- How many operations an undisturbed allocation has left, at most. -/
def Phase.rank (m : Machine) : Phase → Nat
  | .scanning word => 2 * (m.bitmapWords - word) + 2
  | .claiming word _ => 2 * (m.bitmapWords - word) + 1
  | .undoing => 1
  | _ => 0

/-- An allocation by `c` alone, from the state `w₀` on: the words it has seen are clear. -/
structure Alone (w₀ : World m) (c : Fin m.callers) (w : World m) : Prop where
  free : w.free = w₀.free
  live : w.live = w₀.live
  others : ∀ d ≠ c, w.calls d = .idle
  phase : match w.calls c with
    | .scanning word => w.bump = w₀.bump ∧ ∀ i < word, w₀.free.getD i 0#64 = 0#64
    | .claiming word val => w.bump = w₀.bump ∧ val = w₀.free.getD word 0#64 ∧
        word < m.bitmapWords ∧ ∀ i < word, w₀.free.getD i 0#64 = 0#64
    | .undoing => m.slots ≤ w₀.bump ∧ ∀ i < m.bitmapWords, w₀.free.getD i 0#64 = 0#64
    | _ => False

namespace Alone

variable {w₀ : World m} {c : Fin m.callers}

open World

theorem goto_others {phase : Phase} (h : ∀ d ≠ c, w.calls d = .idle) :
    ∀ d ≠ c, (w.goto c phase).calls d = .idle := by
  intro d hd
  simp only [goto, update_of_ne hd, h d hd]

/-- Looking at a word brings the call closer to its end. -/
theorem inspect (al : Alone w₀ c w) (a : w₀.Accounted minted)
    (hword : word < m.bitmapWords) (hbump : w.bump = w₀.bump)
    (hseen : ∀ i < word, w₀.free.getD i 0#64 = 0#64) :
    Alone w₀ c (w.goto c (inspect m word (w.free.getD word 0#64))) ∧
      (inspect m word (w.free.getD word 0#64)).rank m ≤ 2 * (m.bitmapWords - word) + 1 := by
  rw [al.free]
  by_cases hzero : w₀.free.getD word 0#64 = 0#64
  · have hphase : World.inspect m word (w₀.free.getD word 0#64) = .scanning (word + 1) :=
      if_pos (.inl hzero)
    rw [hphase]
    refine ⟨⟨al.free, al.live, goto_others al.others, ?_⟩, by simp only [rank]; omega⟩
    simp only [goto, update_self]
    refine ⟨hbump, fun i hi => ?_⟩
    rcases Nat.lt_succ_iff_lt_or_eq.mp hi with hlt | rfl
    · exact hseen i hlt
    · exact hzero
  · -- a bit of the bitmap is a slot of the window
    have hlt : word * 64 + (w₀.free.getD word 0#64).ctz.toNat < minted :=
      a.lt_minted (by simp only [holdings, bit_ctz hzero, Bool.toNat_true]; omega)
    have hle := a.le_slots
    have hphase : World.inspect m word (w₀.free.getD word 0#64) =
        .claiming word (w₀.free.getD word 0#64) :=
      if_neg fun h => h.elim hzero (by omega)
    rw [hphase]
    refine ⟨⟨al.free, al.live, goto_others al.others, ?_⟩, by simp only [rank]; omega⟩
    simp only [goto, update_self]
    exact ⟨hbump, trivial, hword, hseen⟩

/-- When every word is clear and the counter is past the window, every slot is live. -/
theorem all_live (a : w₀.Accounted minted) (hquiet : w₀.Quiet) (hfull : m.slots ≤ w₀.bump)
    (hclear : ∀ i < m.bitmapWords, w₀.free.getD i 0#64 = 0#64) :
    ∀ slot < m.slots, slot ∈ w₀.live := by
  intro slot hslot
  have hbump := a.bump
  rw [hquiet.undos] at hbump
  have howned := a.owned slot
  have hbit : bit w₀.free slot = false := by
    unfold bit
    rw [hclear (slot / 64) (by simp only [Profile.bitmapWords]; omega)]
    simp
  rw [hquiet.holdings, hbit, if_pos (by omega)] at howned
  exact count_pos_iff.mp (by simpa using Nat.lt_of_lt_of_eq Nat.one_pos howned.symm)

theorem quiet_goto (h : ∀ d ≠ c, w.calls d = .idle) : (w.goto c .idle).Quiet := by
  intro d
  simp only [goto, update_apply]
  split
  · rfl
  · next hd => exact h d hd

/-- One operation of an allocation that runs alone. -/
theorem turn (al : Alone w₀ c w) (a : w₀.Accounted minted) (hquiet : w₀.Quiet)
    (h : w.turn c spurious = some (r, w')) :
    (r = .exhausted → ∀ slot < m.slots, slot ∈ w₀.live) ∧ (w'.Quiet ∨ Alone w₀ c w' ∧
        (spurious = false → (w'.calls c).rank m < (w.calls c).rank m)) := by
  have hphase := al.phase
  unfold World.turn at h
  cases hc : w.calls c with
  | idle | freeing | publishing => simp only [hc] at hphase
  | scanning =>
    simp only [hc] at h hphase
    split at h
    · next hword =>
      cases h
      obtain ⟨hnext, hrank⟩ := al.inspect a hword hphase.1 hphase.2
      refine ⟨by simp, .inr ⟨hnext, fun _ => ?_⟩⟩
      simp only [goto, update_self]
      exact hrank.trans_lt (Nat.lt_succ_self _)
    · next hword =>
      split at h
      · next hfull =>
        cases h
        refine ⟨by simp, .inr ⟨⟨al.free, al.live, goto_others al.others, ?_⟩, fun _ => ?_⟩⟩
        · simp only [goto, update_self]
          exact ⟨hphase.1 ▸ hfull, fun i hi => hphase.2 i (by omega)⟩
        · simp only [goto, update_self, rank]
          omega
      · cases h
        exact ⟨by simp, .inl (quiet_goto al.others)⟩
  | claiming =>
    simp only [hc] at h hphase
    obtain ⟨hbump, hval, hword, hseen⟩ := hphase
    split at h
    · cases h
      exact ⟨by simp, .inl (quiet_goto al.others)⟩
    next hfails =>
    cases h
    refine ⟨by simp, .inr ⟨(al.inspect a hword hbump hseen).1, fun hstrong => ?_⟩⟩
    exact absurd ⟨al.free ▸ hval.symm, hstrong⟩ hfails
  | undoing =>
    simp only [hc] at h hphase
    cases h
    exact ⟨fun _ => all_live a hquiet hphase.1 hphase.2, .inl (quiet_goto al.others)⟩

/-- An allocation that runs alone and fails finds every slot live. -/
theorem exhausted (al : Alone w₀ c w) (a : w₀.Accounted minted) (hquiet : w₀.Quiet)
    {spurious : List Bool} (h : run (step m) w (spurious.map (.turn c)) = some (responses, w'))
    (hfails : .exhausted ∈ responses) : ∀ slot < m.slots, slot ∈ w₀.live := by
  induction spurious generalizing w responses with
  | nil =>
    cases h
    contradiction
  | cons b spurious ih =>
    obtain ⟨_, _, _, hturn, hrest, rfl⟩ := run_cons_eq_some.mp h
    obtain ⟨hall, hnext⟩ := al.turn a hquiet hturn
    rcases mem_cons.mp hfails with rfl | hlater
    · exact hall rfl
    rcases hnext with hdone | ⟨hal, -⟩
    · -- the call has returned, so nothing is left of it
      cases spurious with
      | nil =>
        cases hrest
        contradiction
      | cons =>
        obtain ⟨_, _, _, hturn', -⟩ := run_cons_eq_some.mp hrest
        simp only [step, World.turn, hdone c] at hturn'
        contradiction
    · exact ih hal hrest hlater

/-- An allocation that runs alone and meets no spurious failure returns. -/
theorem returns (al : Alone w₀ c w) (a : w₀.Accounted minted) (hquiet : w₀.Quiet) :
    ∃ k responses w', run (step m) w (replicate k (.turn c false)) = some (responses, w') ∧
      w'.Quiet := by
  induction hn : (w.calls c).rank m using Nat.strong_induction_on generalizing w with
  | _ n ih =>
    obtain ⟨r, u, hturn⟩ : ∃ r u, w.turn c false = some (r, u) := by
      have hphase := al.phase
      unfold World.turn
      cases hc : w.calls c with
      | idle | freeing | publishing => simp only [hc] at hphase
      | scanning =>
        dsimp only
        split
        · exact ⟨_, _, rfl⟩
        · split <;> exact ⟨_, _, rfl⟩
      | claiming =>
        dsimp only
        split <;> exact ⟨_, _, rfl⟩
      | undoing => exact ⟨_, _, rfl⟩
    rcases (al.turn a hquiet hturn).2 with hdone | ⟨hal, hrank⟩
    · exact ⟨1, [r], u, run_singleton.mpr ⟨r, hturn, rfl⟩, hdone⟩
    · obtain ⟨k, rs, v, hrun, hv⟩ := ih _ (hn ▸ hrank rfl) hal rfl
      exact ⟨k + 1, r :: rs, v, run_cons_eq_some.mpr ⟨r, u, rs, hturn, hrun, rfl⟩, hv⟩

end Alone

/-- **Slots are exclusive**: in every run that gives back live slots only, no two live allocations
hold the same slot, every address handed out is that of a slot of the window, and an undisturbed
allocation fails only when every slot is live. -/
theorem va_slots_exclusive {ops : List (Op m)} {responses : List Response}
    (hrun : run (step m) (boot m) ops = some (responses, w))
    (hlive : Guarded (step m) (fun w op => releasesLive w op = true) (boot m) ops) : w.live.Nodup ∧
    (∀ base, .allocated base ∈ responses →
      ∃ slot < m.slots, base = m.base slot ∧ m.slotEnd base = some (m.base (slot + 1))) ∧
    (w.Quiet → ∀ c, (∀ (spurious : List Bool) rs w',
        run (step m) w (.alloc c :: spurious.map (.turn c)) = some (rs, w') → .exhausted ∈ rs →
          ∀ slot < m.slots, slot ∈ w.live) ∧
      ∃ k rs w', run (step m) w (.alloc c :: replicate k (.turn c false)) = some (rs, w') ∧
        w'.Quiet) := by
  obtain ⟨⟨_, a⟩, hinside⟩ : Sound w responses :=
    run_history_of_guarded (H := fun responses w => Sound w responses)
      (fun _ _ _ _ _ => sound_step) hrun hlive ⟨⟨0, accounted_boot⟩, by simp⟩
  refine ⟨nodup_iff_count_le_one.mpr fun slot => ?_, fun base hbase => ?_, fun hquiet c => ?_⟩
  · have howned := a.owned slot
    unfold World.holdings at howned
    split at howned <;> omega
  · obtain ⟨slot, hslot, rfl⟩ := hinside base hbase
    exact ⟨slot, hslot, rfl, m.slotEnd_base hslot⟩
  · have hbegin : step m w (.alloc c) = some (.pending, w.goto c (.scanning 0)) := if_pos (hquiet c)
    have al : Alone w c (w.goto c (.scanning 0)) := by
      refine ⟨rfl, rfl, Alone.goto_others fun d _ => hquiet d, ?_⟩
      simp only [World.goto, update_self]
      exact ⟨trivial, by omega⟩
    constructor
    · intro spurious rs w' h hfails
      obtain ⟨_, _, _, hfirst, hrest, rfl⟩ := run_cons_eq_some.mp h
      cases hbegin.symm.trans hfirst
      exact al.exhausted a hquiet hrest (by simpa using hfails)
    · obtain ⟨k, rs, w', h, hdone⟩ := al.returns a hquiet
      exact ⟨k, .pending :: rs, w', run_cons_eq_some.mpr ⟨_, _, rs, hbegin, h, rfl⟩, hdone⟩

end

/-- An embedded build on which two calls can be in progress. -/
def duo : Machine := { Profile.embedded with callers := 2, room := by decide }

/-- Two calls take the first two slots at the same time; the first slot is given back and
taken again. -/
def takeTwo : List (Op duo) :=
  let a : Fin duo.callers := ⟨0, by decide⟩
  let b : Fin duo.callers := ⟨1, by decide⟩
  [.alloc a, .alloc b] ++ (replicate 9 [.turn a false, .turn b false]).flatten
    ++ [.free b (duo.base 0), .turn b false, .turn b false]
    ++ [.alloc a, .turn a false, .turn a true, .turn a false]

theorem va_slots_exclusive_duo : ∃ responses w,
    run (step duo) (boot duo) takeTwo = some (responses, w) ∧ w.live = [1, 0] ∧ w.live.Nodup := by
  have hlive : Guarded (step duo) (fun w op => releasesLive w op = true) (boot duo) takeTwo := by
    decide +kernel
  obtain ⟨responses, w, hrun, hslots⟩ : ∃ responses w,
      run (step duo) (boot duo) takeTwo = some (responses, w) ∧ w.live = [1, 0] := by
    decide +kernel
  exact ⟨responses, w, hrun, hslots, (va_slots_exclusive hrun hlive).1⟩

end Cellos.Loader
