import Cellos.Memory.Pin

/-!
# Cellos.Memory.PinSafety

When are frames handed back while something can still reach them?

The registry is read as a custody ledger (`ledger`): pins, cache operations and
leases are holders, quarantined ranges are withheld sets.  A quarantined range
records one release key, the one of the first holder the reaper met.  If holders
with different keys overlap the range, releasing that one key hands the frames
back under the others: `acknowledge_frees_leased_frames` runs into it.

`Custodial` is the condition on each transaction, in the state before it, under
which this cannot happen.
-/

namespace Cellos.Memory.Pin

open Lib List Option

variable {probe : Nat × Nat} {reg : Registry} {key : ReleaseKey} {q : FrameHold}

/-! ## the registry as a ledger -/

/-- A live entry of one of the three tables: its range and the key that ends it. -/
structure Holder where
  range : Nat × Nat
  key : ReleaseKey

def PinEntry.toHolder (e : PinEntry) : Holder := ⟨(e.base, e.pages), .owner e.owner⟩

def CacheSyncEntry.toHolder (e : CacheSyncEntry) : Holder :=
  ⟨(e.base, e.pages), .cacheSyncBootLifetime⟩

def VfsLeaseEntry.toHolder (e : VfsLeaseEntry) : Holder :=
  ⟨(e.base, e.pages), .vfsLease e.holderTid e.grantOwner e.requestGeneration⟩

open CacheSyncEntry

/-- The live holders of the registry. -/
def Registry.holders (reg : Registry) : List Holder :=
  (reg.pins.filter fun e => e.pages != 0).map PinEntry.toHolder ++
  (reg.cacheSync.filter fun e => e.pages != 0).map toHolder ++
  (reg.vfsLeases.filter fun e => e.pages != 0).map VfsLeaseEntry.toHolder

/-- The ranges in quarantine. -/
def Registry.holds (reg : Registry) : List FrameHold := reg.quarantine.filter fun q => q.pages != 0

/-- The frame numbers of a range. -/
def frames (range : Nat × Nat) : Set Nat :=
  Set.Ico (range.1 / pageSize) (range.1 / pageSize + range.2)

/-- Two ranges have a frame in common. -/
def SharesFrame (a b : Nat × Nat) : Prop :=
  max (a.1 / pageSize) (b.1 / pageSize) < min (a.1 / pageSize + a.2) (b.1 / pageSize + b.2)

instance (a b : Nat × Nat) : Decidable (SharesFrame a b) :=
  inferInstanceAs (Decidable (_ < _))

theorem sharesFrame_iff : SharesFrame a b ↔ (frames a ∩ frames b).Nonempty := by
  unfold SharesFrame frames
  rw [Set.Ico_inter_Ico, Set.nonempty_Ico]

/-- The custody ledger of a registry. -/
def ledger (reg : Registry) : Ledger Nat ReleaseKey where
  holders := { h | ∃ x ∈ reg.holders, h = (frames x.range, x.key) }
  withheld := { w | ∃ q ∈ reg.holds, w = (frames (q.base, q.pages), q.release) }

/-- Cache operations are never acknowledged: their frames are gone for the boot. -/
def Permanent (key : ReleaseKey) : Prop := key = .cacheSyncBootLifetime

/-! ## tables under updates -/

section Tables

variable {reg : Registry} {x : Holder}

theorem mem_holders : h ∈ reg.holders ↔ (∃ e ∈ reg.pins, e.pages ≠ 0 ∧ e.toHolder = h) ∨
    (∃ e ∈ reg.cacheSync, e.pages ≠ 0 ∧ e.toHolder = h) ∨
    (∃ e ∈ reg.vfsLeases, e.pages ≠ 0 ∧ e.toHolder = h) := by
  simp [Registry.holders, and_assoc]

theorem mem_holds : q ∈ reg.holds ↔ q ∈ reg.quarantine ∧ q.pages ≠ 0 := by
  simp [Registry.holds]

theorem mem_of_mem_modify {α : Type*} {l : List α} {i : Nat} {f : α → α} {x : α}
    (h : x ∈ l.modify i f) : x ∈ l ∨ ∃ y ∈ l, x = f y := by
  obtain ⟨j, hj⟩ := mem_iff_getElem?.mp h
  rw [getElem?_modify] at hj
  obtain ⟨y, hy, rfl⟩ := map_eq_some_iff.mp hj
  split
  · exact .inr ⟨y, mem_of_getElem? hy, rfl⟩
  · exact .inl (mem_of_getElem? hy)

/-- Every live entry of the new table stands for a holder of the old one, or for
the one new holder. -/
def Covers {ε : Type} (pages : ε → Nat) (toHolder : ε → Holder) (new : Option Holder)
    (l l' : List ε) : Prop :=
  ∀ e ∈ l', pages e ≠ 0 → new = some (toHolder e) ∨
    ∃ e' ∈ l, pages e' ≠ 0 ∧ toHolder e' = toHolder e

namespace Covers

variable {ε : Type} {pages : ε → Nat} {toHolder : ε → Holder} {new : Option Holder} {l : List ε}

theorem refl (l : List ε) : Covers pages toHolder new l l := fun e he hp => .inr ⟨e, he, hp, rfl⟩

/-- A slot is written; freeing one adds nothing. -/
theorem set (i : Nat) {x : ε} (hx : pages x ≠ 0 → new = some (toHolder x)) :
    Covers pages toHolder new l (l.set i x) := by
  intro e he hp
  rcases mem_or_eq_of_mem_set he with he | rfl
  · exact .inr ⟨e, he, hp, rfl⟩
  · exact .inl (hx hp)

variable (i : Nat) {f : ε → ε} (hf : ∀ e, pages (f e) ≠ 0 → pages e ≠ 0 ∧ toHolder (f e) = toHolder e)

include hf

theorem map : Covers pages toHolder new l (l.map f) := by
  intro e he hp
  obtain ⟨e', he', rfl⟩ := mem_map.mp he
  obtain ⟨hp', heq⟩ := hf e' hp
  exact .inr ⟨e', he', hp', heq.symm⟩

theorem modify : Covers pages toHolder new l (l.modify i f) := by
  intro e he hp
  rcases mem_of_mem_modify he with he | ⟨e', he', rfl⟩
  · exact .inr ⟨e, he, hp, rfl⟩
  · exact map hf _ (mem_map_of_mem he') hp

end Covers

/-- What one transaction adds to the ledger: at most one holder and one withheld range. -/
structure Adds (newHolder : Option Holder) (newHold : Option FrameHold) (reg reg' : Registry) :
    Prop where
  pins : Covers PinEntry.pages PinEntry.toHolder newHolder reg.pins reg'.pins
  cacheSync : Covers pages toHolder newHolder
    reg.cacheSync reg'.cacheSync
  vfsLeases : Covers VfsLeaseEntry.pages VfsLeaseEntry.toHolder newHolder
    reg.vfsLeases reg'.vfsLeases
  holds : ∀ q ∈ reg'.holds, newHold = some q ∨ q ∈ reg.holds

namespace Adds

theorem refl (reg : Registry) : Adds newHolder newHold reg reg :=
  ⟨.refl _, .refl _, .refl _, fun _ hq => .inr hq⟩

theorem mem_holders (h : Adds newHolder newHold reg reg') (hx : x ∈ reg'.holders) :
    newHolder = some x ∨ x ∈ reg.holders := by
  rcases Pin.mem_holders.mp hx with ⟨e, he, hp, rfl⟩ | ⟨e, he, hp, rfl⟩ | ⟨e, he, hp, rfl⟩
  · exact (h.pins e he hp).imp_right fun ho => Pin.mem_holders.mpr (.inl ho)
  · exact (h.cacheSync e he hp).imp_right fun ho => Pin.mem_holders.mpr (.inr (.inl ho))
  · exact (h.vfsLeases e he hp).imp_right fun ho => Pin.mem_holders.mpr (.inr (.inr ho))

theorem sound (h : Adds none none reg reg') (hs : (ledger reg).Sound Permanent) :
    (ledger reg').Sound Permanent := by
  refine hs.mono ?_ ?_
  · rintro _ ⟨x, hx, rfl⟩
    exact ⟨x, (h.mem_holders hx).resolve_left (by simp), rfl⟩
  · rintro _ ⟨q, hq, rfl⟩
    exact ⟨q, (h.holds q hq).resolve_left (by simp), rfl⟩

/-- A new holder keeps the ledger sound if it fits every releasable range it reaches. -/
theorem sound_of_holder (h : Adds (some new) none reg reg') (hs : (ledger reg).Sound Permanent)
    (hfit : ∀ q ∈ reg.holds, q.release ≠ .cacheSyncBootLifetime →
      SharesFrame new.range (q.base, q.pages) → new.key = q.release) :
    (ledger reg').Sound Permanent := by
  refine hs.hold (h := (frames new.range, new.key)) ?_ ?_ ?_
  · rintro _ ⟨x, hx, rfl⟩
    rcases h.mem_holders hx with hn | ho
    · cases hn
      exact .inl rfl
    · exact .inr ⟨x, ho, rfl⟩
  · rintro _ ⟨q, hq, rfl⟩
    exact ⟨q, (h.holds q hq).resolve_left (by simp), rfl⟩
  · rintro _ ⟨q, hq, rfl⟩ hperm hn
    exact hfit q hq hperm (sharesFrame_iff.mpr hn)

/-- A new withheld range keeps the ledger sound if all holders that reach it have
the key it waits for. -/
theorem sound_of_hold (h : Adds none (some q) reg reg') (hs : (ledger reg).Sound Permanent)
    (hfit : q.release ≠ .cacheSyncBootLifetime → ∀ x ∈ reg.holders,
      SharesFrame x.range (q.base, q.pages) → x.key = q.release) :
    (ledger reg').Sound Permanent := by
  refine hs.withhold (w := (frames (q.base, q.pages), q.release)) ?_ ?_ ?_
  · rintro _ ⟨x, hx, rfl⟩
    exact ⟨x, (h.mem_holders hx).resolve_left (by simp), rfl⟩
  · rintro _ ⟨p, hp, rfl⟩
    rcases h.holds p hp with hn | ho
    · cases hn
      exact .inl rfl
    · exact .inr ⟨p, ho, rfl⟩
  · rintro hperm _ ⟨x, hx, rfl⟩ hn
    exact hfit hperm x hx (sharesFrame_iff.mpr hn)

end Adds

end Tables

/-! ## what each transaction adds -/

section Transactions

variable (reg : Registry)

/-- A transaction that takes a range adds nothing, or one holder of that range. -/
def AddsHolder (base len : Nat) (key : ReleaseKey) (reg reg' : Registry) : Prop :=
  Adds none none reg reg' ∨ ∃ range, span base len = some range ∧ Adds (some ⟨range, key⟩) none reg reg'

theorem adds_pins (h : Covers PinEntry.pages PinEntry.toHolder new reg.pins pins) :
    Adds new none reg { reg with pins } :=
  ⟨h, .refl _, .refl _, fun _ hq => .inr hq⟩

theorem adds_cacheSync (h : Covers pages toHolder new reg.cacheSync cacheSync) :
    Adds new none reg { reg with cacheSync, nextCacheToken := n } :=
  ⟨.refl _, h, .refl _, fun _ hq => .inr hq⟩

theorem adds_vfsLeases
    (h : Covers VfsLeaseEntry.pages VfsLeaseEntry.toHolder new reg.vfsLeases vfsLeases) :
    Adds new none reg { reg with vfsLeases } :=
  ⟨.refl _, .refl _, h, fun _ hq => .inr hq⟩

theorem pin_adds (base len owner : Nat) :
    AddsHolder base len (.owner owner) reg (pin reg base len owner).2 := by
  unfold pin
  cases hspan : span base len with
  | none => exact .inl (.refl reg)
  | some =>
    dsimp only
    split
    · exact .inl (adds_pins reg (.modify _ fun e hp => ⟨hp, rfl⟩))
    split_ifs
    · exact .inl (.refl reg)
    · split
      · exact .inl (.refl reg)
      · exact .inr ⟨_, hspan, adds_pins reg (.set _ fun _ => rfl)⟩

theorem rollbackPin_adds (base len owner : Nat) :
    Adds none none reg (rollbackPin reg base len owner).2 := by
  unfold rollbackPin
  split
  · exact .refl reg
  split
  · exact .refl reg
  refine adds_pins reg (.modify _ fun e hp => ?_)
  split_ifs at hp ⊢
  · exact ⟨hp, rfl⟩
  · exact absurd rfl hp

theorem beginCacheSync_adds (base len owner : Nat) :
    AddsHolder base len .cacheSyncBootLifetime reg (beginCacheSync reg base len owner).2 := by
  unfold beginCacheSync
  cases hspan : span base len with
  | none => exact .inl (.refl reg)
  | some =>
    dsimp only
    split
    · exact .inl (.refl reg)
    · split
      · exact .inl (.refl reg)
      · exact .inr ⟨_, hspan, adds_cacheSync reg (.set _ fun _ => rfl)⟩

theorem beginCacheSyncCompletion_adds (token owner : Nat) :
    Adds none none reg (beginCacheSyncCompletion reg token owner).2 := by
  unfold beginCacheSyncCompletion
  split_ifs
  · exact .refl reg
  · split
    · exact .refl reg
    · exact adds_cacheSync reg (.modify _ fun e hp => ⟨hp, rfl⟩)

theorem dropCacheSync_adds (ready : CacheSyncEntry → Bool) (token owner : Nat) :
    Adds none none reg (dropCacheSync ready reg token owner).2 := by
  unfold dropCacheSync
  split_ifs
  · exact .refl reg
  · split
    · exact .refl reg
    · exact adds_cacheSync reg (.set _ fun hp => absurd rfl hp)

theorem pinVfsLease_adds (base len grantOwner holderTid grantId requestGeneration : Nat) :
    AddsHolder base len (.vfsLease holderTid grantOwner requestGeneration) reg
      (pinVfsLease reg base len grantOwner holderTid grantId requestGeneration).2 := by
  unfold pinVfsLease
  cases hspan : span base len with
  | none => exact .inl (.refl reg)
  | some =>
    dsimp only
    split
    · exact .inl (.refl reg)
    split_ifs
    · exact .inl (.refl reg)
    · split
      · exact .inl (.refl reg)
      · exact .inr ⟨_, hspan, adds_vfsLeases reg (.set _ fun _ => rfl)⟩

theorem markVfsLeasePendingRevoke_adds (holderTid grantOwner requestGeneration : Nat) :
    Adds none none reg (markVfsLeasePendingRevoke reg holderTid grantOwner requestGeneration).2 := by
  unfold markVfsLeasePendingRevoke
  split
  · exact .refl reg
  · exact adds_vfsLeases reg (.modify _ fun e hp => ⟨hp, rfl⟩)

theorem quarantineTask_adds (tid : Nat) : Adds none none reg (quarantineTask reg tid).2 := by
  refine ⟨Covers.map fun e hp => ?_, Covers.map fun e hp => ?_, .refl _, fun _ hq => .inr hq⟩
  · split_ifs at hp ⊢ <;> exact ⟨hp, rfl⟩
  · split_ifs at hp ⊢ <;> exact ⟨hp, rfl⟩

/-- Quarantining a range adds nothing, or exactly that range under that key. -/
theorem holdQuarantinedFrames_adds (base pages : Nat) (release : ReleaseKey) :
    Adds none none reg (holdQuarantinedFrames reg base pages release).2 ∨
      Adds none (some { base, pages, release }) reg
        (holdQuarantinedFrames reg base pages release).2 := by
  unfold holdQuarantinedFrames
  split_ifs
  · exact .inl (.refl reg)
  split
  · refine .inr ⟨.refl _, .refl _, .refl _, fun q hq => ?_⟩
    obtain ⟨hmem, hp⟩ := mem_holds.mp hq
    rcases mem_or_eq_of_mem_set hmem with hmem | rfl
    · exact .inr (mem_holds.mpr ⟨hmem, hp⟩)
    · exact .inl rfl
  · exact .inl (.refl reg)

theorem holds_releaseQuarantinedFrames (isMatch : ReleaseKey → Bool)
    (hq : q ∈ (releaseQuarantinedFrames reg isMatch).2.holds) : q ∈ reg.holds := by
  obtain ⟨hmem, hp⟩ := mem_holds.mp hq
  obtain ⟨p, hpm, rfl⟩ := mem_map.mp hmem
  split_ifs at hp ⊢
  · exact absurd rfl hp
  · exact mem_holds.mpr ⟨hpm, hp⟩

/-- A transfer answers free and changes nothing, because no holder overlaps its range; or it tries
to quarantine the range under the transfer key. -/
theorem withholdPinnedFrames_cases (base pages : Nat) :
    ((withholdPinnedFrames reg base pages).2 = reg ∧ (pages * pageSize < 2 ^ 64 →
      ∀ probe, span base (pages * pageSize) = some probe → transferKey reg probe = none)) ∨
    ∃ probe release, span base (pages * pageSize) = some probe ∧
      transferKey reg probe = some release ∧ (withholdPinnedFrames reg base pages).1 ≠ .free ∧
      (withholdPinnedFrames reg base pages).2 = (holdQuarantinedFrames reg base pages release).2 := by
  unfold withholdPinnedFrames
  split
  · exact .inl ⟨rfl, fun h => absurd h (by omega)⟩
  split
  · next hspan => exact .inl ⟨rfl, by simp [hspan]⟩
  next probe hspan =>
  split
  · next hkey => exact .inl ⟨rfl, by simp [hspan, hkey]⟩
  next release hkey =>
  refine .inr ⟨probe, release, hspan, hkey, ?_⟩
  split <;> simp [*]

end Transactions

/-! ## the transfer key -/

/-- The probe of a transfer covers the frames of the range. -/
theorem overlaps_of_sharesFrame {base pages : Nat} {range : Nat × Nat}
    (hspan : span base (pages * pageSize) = some probe) (h : SharesFrame range (base, pages)) :
    overlaps probe range = true := by
  unfold span at hspan
  split_ifs at hspan
  cases hspan
  unfold SharesFrame at h
  simp only [overlaps, Bool.and_eq_true, decide_eq_true_eq]
  unfold pageSize at h ⊢
  omega

theorem transferKey_eq_none (h : transferKey reg probe = none) :
    ∀ x ∈ reg.holders, overlaps probe x.range = false := by
  unfold transferKey at h
  split at h
  · contradiction
  next hpins =>
  split at h
  · contradiction
  next hcache =>
  have hleases := map_eq_none_iff.mp h
  rw [find?_eq_none] at hpins hcache hleases
  intro x hx
  rcases mem_holders.mp hx with ⟨e, he, hp, rfl⟩ | ⟨e, he, hp, rfl⟩ | ⟨e, he, hp, rfl⟩
  · simpa [hp, PinEntry.toHolder] using hpins e he
  · simpa [hp, toHolder] using hcache e he
  · simpa [hp, VfsLeaseEntry.toHolder] using hleases e he

theorem transferKey_eq_some (h : transferKey reg probe = some key) :
    ∃ x ∈ reg.holders, overlaps probe x.range = true ∧ x.key = key := by
  unfold transferKey at h
  split at h
  · next e he =>
    have hp := find?_some he
    simp only [Bool.and_eq_true, bne_iff_ne] at hp
    exact ⟨e.toHolder, mem_holders.mpr (.inl ⟨e, mem_of_find?_eq_some he, hp.1, rfl⟩), hp.2,
      some.inj h⟩
  · split at h
    · next e he =>
      have hp := find?_some he
      simp only [Bool.and_eq_true, bne_iff_ne] at hp
      exact ⟨e.toHolder, mem_holders.mpr (.inr (.inl ⟨e, mem_of_find?_eq_some he, hp.1, rfl⟩)),
        hp.2, some.inj h⟩
    · obtain ⟨e, he, hk⟩ := map_eq_some_iff.mp h
      have hp := find?_some he
      simp only [Bool.and_eq_true, bne_iff_ne] at hp
      exact ⟨e.toHolder, mem_holders.mpr (.inr (.inr ⟨e, mem_of_find?_eq_some he, hp.1, rfl⟩)),
        hp.2, hk⟩

/-- The key of a pin. -/
def ReleaseKey.isOwner : ReleaseKey → Bool
  | .owner _ => true
  | _ => false

/-- Without an overlapping pin an overlapping cache operation decides the transfer. -/
theorem transferKey_eq_boot
    (hcache : ∃ x ∈ reg.holders, overlaps probe x.range = true ∧ x.key = .cacheSyncBootLifetime)
    (hpin : ∀ x ∈ reg.holders, overlaps probe x.range = true → x.key.isOwner = false) :
    transferKey reg probe = some .cacheSyncBootLifetime := by
  have hnone : reg.pins.find? (fun e => e.pages != 0 && overlaps probe (e.base, e.pages)) = none := by
    rw [find?_eq_none]
    intro e he hcond
    simp only [Bool.and_eq_true, bne_iff_ne] at hcond
    have := hpin e.toHolder (mem_holders.mpr (.inl ⟨e, he, hcond.1, rfl⟩)) hcond.2
    contradiction
  obtain ⟨x, hx, hov, hkey⟩ := hcache
  unfold transferKey
  rw [hnone]
  cases hf : reg.cacheSync.find? (fun e => e.pages != 0 && overlaps probe (e.base, e.pages)) with
  | some => rfl
  | none =>
    rw [find?_eq_none] at hf
    rcases mem_holders.mp hx with ⟨e, he, hp, rfl⟩ | ⟨e, he, hp, rfl⟩ | ⟨e, he, hp, rfl⟩
    · contradiction
    · refine absurd ?_ (hf e he)
      simp only [Bool.and_eq_true, bne_iff_ne]
      exact ⟨hp, hov⟩
    · contradiction

/-! ## the condition -/

/-- A new holder of `range` carries the key of every quarantined range it shares a
frame with, those that are never released apart. -/
def Fits (reg : Registry) (range : Nat × Nat) (key : ReleaseKey) : Prop :=
  ∀ q ∈ reg.holds, q.release ≠ .cacheSyncBootLifetime →
    SharesFrame range (q.base, q.pages) → key = q.release

/-- Every holder that shares a frame with `range` carries the key. -/
def HeldUnder (reg : Registry) (range : Nat × Nat) (key : ReleaseKey) : Prop :=
  ∀ x ∈ reg.holders, SharesFrame x.range range → x.key = key

/-- The holders that overlap the probe of a transfer all carry one key, or the
transfer is for good: a cache operation is among them and no pin. -/
def Unanimous (reg : Registry) (probe : Nat × Nat) : Prop :=
  (∀ x ∈ reg.holders, ∀ y ∈ reg.holders, overlaps probe x.range = true →
    overlaps probe y.range = true → x.key = y.key) ∨
  ((∃ x ∈ reg.holders, overlaps probe x.range = true ∧ x.key = .cacheSyncBootLifetime) ∧
    ∀ x ∈ reg.holders, overlaps probe x.range = true → x.key.isOwner = false)

/-- **The condition on a transaction**: ranges do not run past the address space, a range goes
into quarantine only when its holders agree on the key, and a new holder on quarantined frames
carries their key. -/
def Custodial (reg : Registry) : Op → Prop
  | .pin base len owner => ∀ range ∈ span base len, Fits reg range (.owner owner)
  | .beginCacheSync base len _ => ∀ range ∈ span base len, Fits reg range .cacheSyncBootLifetime
  | .pinVfsLease base len grantOwner holderTid _ requestGeneration =>
    ∀ range ∈ span base len, Fits reg range (.vfsLease holderTid grantOwner requestGeneration)
  | .withholdFrames base pages owner => HeldUnder reg (base, pages) (.owner owner)
  | .withholdVfsFrames base pages holderTid grantOwner requestGeneration =>
    HeldUnder reg (base, pages) (.vfsLease holderTid grantOwner requestGeneration)
  | .withholdPinnedFrames base pages =>
    pages = 0 ∨ (base + pages * pageSize + (pageSize - 1) < 2 ^ 64 ∧
      ∀ probe ∈ span base (pages * pageSize), Unanimous reg probe)
  | _ => True

section Decidable

variable (reg : Registry)

instance (range : Nat × Nat) (key : ReleaseKey) : Decidable (Fits reg range key) :=
  inferInstanceAs (Decidable (∀ q ∈ reg.holds, _))

instance (range : Nat × Nat) (key : ReleaseKey) : Decidable (HeldUnder reg range key) :=
  inferInstanceAs (Decidable (∀ x ∈ reg.holders, _))

instance (probe : Nat × Nat) : Decidable (Unanimous reg probe) :=
  inferInstanceAs (Decidable ((∀ x ∈ reg.holders, ∀ y ∈ reg.holders, _) ∨ _))

instance (op : Op) : Decidable (Custodial reg op) := by
  cases op <;> dsimp only [Custodial] <;> infer_instance

end Decidable

/-! ## safety -/

section Safety

variable {reg reg' : Registry} {x : Holder}
variable {base pages : Nat}

theorem AddsHolder.sound {len : Nat} (h : AddsHolder base len key reg reg')
    (hs : (ledger reg).Sound Permanent) (hfit : ∀ range ∈ span base len, Fits reg range key) :
    (ledger reg').Sound Permanent := by
  rcases h with h | ⟨range, hspan, h⟩
  · exact h.sound hs
  · exact h.sound_of_holder hs (hfit range hspan)

variable (hs : (ledger reg).Sound Permanent)

include hs

theorem holdQuarantinedFrames_sound {release : ReleaseKey}
    (hheld : release ≠ .cacheSyncBootLifetime → HeldUnder reg (base, pages) release) :
    (ledger (holdQuarantinedFrames reg base pages release).2).Sound Permanent := by
  rcases holdQuarantinedFrames_adds reg base pages release with h | h
  · exact h.sound hs
  · exact h.sound_of_hold hs hheld

omit hs in
/-- A unanimous transfer records the key of every holder of the range. -/
theorem Unanimous.heldUnder {probe : Nat × Nat} (hu : Unanimous reg probe)
    (hspan : span base (pages * pageSize) = some probe) (hkey : transferKey reg probe = some key)
    (hperm : key ≠ .cacheSyncBootLifetime) : HeldUnder reg (base, pages) key := by
  rcases hu with hone | ⟨hcache, hpin⟩
  · obtain ⟨y, hy, hyo, rfl⟩ := transferKey_eq_some hkey
    intro x hx hshare
    exact hone x hx y hy (overlaps_of_sharesFrame hspan hshare) hyo
  · rw [transferKey_eq_boot hcache hpin] at hkey
    exact absurd (some.inj hkey).symm hperm

theorem withholdPinnedFrames_sound
    (hu : ∀ probe ∈ span base (pages * pageSize), Unanimous reg probe) :
    (ledger (withholdPinnedFrames reg base pages).2).Sound Permanent := by
  obtain ⟨heq, -⟩ | ⟨probe, release, hspan, hkey, -, heq⟩ := withholdPinnedFrames_cases reg base pages
  · rw [heq]
    exact hs
  · rw [heq]
    exact holdQuarantinedFrames_sound hs ((hu probe hspan).heldUnder hspan hkey)

omit hs in
theorem mem_holders_dropPins (tid : Nat) (hx : x ∈ ({ reg with pins := reg.pins.map fun e =>
      if e.pages != 0 && e.owner == tid then {} else e } : Registry).holders) :
    x ∈ reg.holders ∧ x.key ≠ .owner tid := by
  rcases mem_holders.mp hx with ⟨e, he, hp, rfl⟩ | ⟨e, he, hp, rfl⟩ | ⟨e, he, hp, rfl⟩
  · obtain ⟨e, he', rfl⟩ := mem_map.mp he
    split_ifs at hp ⊢ with hc
    · exact absurd rfl hp
    · refine ⟨mem_holders.mpr (.inl ⟨e, he', hp, rfl⟩), fun hk => hc ?_⟩
      have : e.owner = tid := by simpa [PinEntry.toHolder] using hk
      simp [hp, this]
  · exact ⟨mem_holders.mpr (.inr (.inl ⟨e, he, hp, rfl⟩)), by simp [toHolder]⟩
  · exact ⟨mem_holders.mpr (.inr (.inr ⟨e, he, hp, rfl⟩)), by simp [VfsLeaseEntry.toHolder]⟩

omit hs in
theorem mem_holders_dropLeases (isGone : VfsLeaseEntry → Bool) (hx : x ∈ ({ reg with
        vfsLeases := reg.vfsLeases.map fun e => if isGone e then {} else e } : Registry).holders) :
    x ∈ reg.holders ∧ ∀ h g r, x.key = .vfsLease h g r →
      ∃ e, isGone e = false ∧ e.pages ≠ 0 ∧ e.holderTid = h ∧ e.grantOwner = g ∧
        e.requestGeneration = r := by
  rcases mem_holders.mp hx with ⟨e, he, hp, rfl⟩ | ⟨e, he, hp, rfl⟩ | ⟨e, he, hp, rfl⟩
  · exact ⟨mem_holders.mpr (.inl ⟨e, he, hp, rfl⟩), by simp [PinEntry.toHolder]⟩
  · exact ⟨mem_holders.mpr (.inr (.inl ⟨e, he, hp, rfl⟩)), by simp [toHolder]⟩
  obtain ⟨e, he', rfl⟩ := mem_map.mp he
  split_ifs at hp ⊢ with hc
  · exact absurd rfl hp
  refine ⟨mem_holders.mpr (.inr (.inr ⟨e, he', hp, rfl⟩)), fun h g r hk => ?_⟩
  obtain ⟨rfl, rfl, rfl⟩ := by simpa [VfsLeaseEntry.toHolder] using hk
  exact ⟨e, by simpa using hc, hp, rfl, rfl, rfl⟩

/-- A release keeps the ledger sound and hands back unreachable frames only. -/
def SafeRelease (out : List (Nat × Nat) × Registry) : Prop :=
  (ledger out.2).Sound Permanent ∧
    ∀ range ∈ out.1, ∀ x ∈ out.2.holders, ¬SharesFrame x.range range

/-- Once its holders are dropped, the frames withheld under a key can be released. -/
theorem safeRelease_of_dropped (hperm : isMatch .cacheSyncBootLifetime = false)
    (hq : reg'.quarantine = reg.quarantine)
    (hdrop : ∀ x ∈ reg'.holders, x ∈ reg.holders ∧ isMatch x.key = false) :
    SafeRelease (releaseQuarantinedFrames reg' isMatch) := by
  have hs' : (ledger reg').Sound Permanent := by
    refine hs.mono ?_ ?_
    · rintro _ ⟨x, hx, rfl⟩
      exact ⟨x, (hdrop x hx).1, rfl⟩
    · rintro _ ⟨q, hm, rfl⟩
      exact ⟨q, by simpa [Registry.holds, hq] using hm, rfl⟩
  constructor
  · refine hs'.mono (fun _ h => h) ?_
    rintro _ ⟨q, hq, rfl⟩
    exact ⟨q, holds_releaseQuarantinedFrames reg' isMatch hq, rfl⟩
  intro range hrange x hx hshare
  obtain ⟨q, hq, rfl⟩ := mem_map.mp hrange
  obtain ⟨hmem, hcond⟩ := mem_filter.mp hq
  simp only [Bool.and_eq_true, bne_iff_ne] at hcond
  obtain ⟨hpages, hmatch⟩ := hcond
  have hnot : ¬Permanent q.release := by
    intro h
    rw [h, hperm] at hmatch
    contradiction
  have hkeys : ∀ h ∈ (ledger reg').holders, h ∈ (ledger reg').holders ∧ h.2 ≠ q.release := by
    rintro _ ⟨y, hy, rfl⟩
    refine ⟨⟨y, hy, rfl⟩, fun hkey => ?_⟩
    have := (hdrop y hy).2
    rw [show y.key = q.release from hkey, hmatch] at this
    contradiction
  have hdisj := hs'.disjoint_of_released ⟨q, mem_holds.mpr ⟨hmem, hpages⟩, rfl⟩ hnot hkeys _
    ⟨x, hx, rfl⟩
  exact Set.not_disjoint_iff_nonempty_inter.mpr (sharesFrame_iff.mp hshare) hdisj

/-- **Acknowledgement**: sound before, sound after, and nothing reachable is handed back. -/
theorem acknowledge_spec (tid : Nat) : SafeRelease (acknowledge reg tid) :=
  safeRelease_of_dropped hs rfl rfl fun x hx => by simpa using mem_holders_dropPins tid hx

theorem releaseVfsLease_spec (holderTid grantOwner requestGeneration : Nat) :
    SafeRelease (releaseVfsLease reg holderTid grantOwner requestGeneration) := by
  refine safeRelease_of_dropped hs rfl rfl fun x hx => ?_
  obtain ⟨hold, hlease⟩ := mem_holders_dropLeases _ hx
  refine ⟨hold, beq_eq_false_iff_ne.mpr fun hkey => ?_⟩
  obtain ⟨e, hgone, hp, rfl, rfl, rfl⟩ := hlease _ _ _ hkey
  simp [sameVfsLease, hp] at hgone

theorem releaseVfsHolderLeases_spec (holderTid : Nat) :
    SafeRelease (releaseVfsHolderLeases reg holderTid) := by
  refine safeRelease_of_dropped hs rfl rfl fun x hx => ?_
  obtain ⟨hold, hlease⟩ := mem_holders_dropLeases _ hx
  refine ⟨hold, ?_⟩
  cases hkey : x.key with
  | vfsLease =>
    obtain ⟨e, hgone, hp, rfl, rfl, rfl⟩ := hlease _ _ _ hkey
    simpa [isLeaseOf, hp] using hgone
  | _ => rfl

omit hs in
/-- A transfer that answers free has no holder on the range. -/
theorem withholdPinnedFrames_free
    (hfit : pages = 0 ∨ base + pages * pageSize + (pageSize - 1) < 2 ^ 64)
    (hfree : (withholdPinnedFrames reg base pages).1 = .free) :
    ∀ x ∈ (withholdPinnedFrames reg base pages).2.holders, ¬SharesFrame x.range (base, pages) := by
  obtain ⟨heq, hnone⟩ | ⟨_, _, _, _, hne, _⟩ := withholdPinnedFrames_cases reg base pages
  · rw [heq]
    intro x hx hshare
    have hpos : pages ≠ 0 := by
      rintro rfl
      unfold SharesFrame at hshare
      omega
    obtain ⟨probe, hspan⟩ : ∃ probe, span base (pages * pageSize) = some probe := by
      unfold span
      rw [if_neg, if_neg, if_neg]
      · exact ⟨_, rfl⟩
      all_goals
        unfold pageSize at *
        omega
    have hkey := hnone (by unfold pageSize at *; omega) probe hspan
    have := transferKey_eq_none hkey x hx
    rw [overlaps_of_sharesFrame hspan hshare] at this
    contradiction
  · exact absurd hfree hne

theorem withholdPinnedFrames_spec (hg : Custodial reg (.withholdPinnedFrames base pages)) :
    (ledger (withholdPinnedFrames reg base pages).2).Sound Permanent ∧
      ∀ range ∈ handedBack (.withholdPinnedFrames base pages)
          (.transfer (withholdPinnedFrames reg base pages).1),
        ∀ x ∈ (withholdPinnedFrames reg base pages).2.holders, ¬SharesFrame x.range range := by
  have hunanimous : ∀ probe ∈ span base (pages * pageSize), Unanimous reg probe := by
    rcases hg with rfl | ⟨-, hu⟩
    · simp [span]
    · exact hu
  refine ⟨withholdPinnedFrames_sound hs hunanimous, fun range hrange => ?_⟩
  cases hfree : (withholdPinnedFrames reg base pages).1 with
  | free =>
    obtain rfl : range = (base, pages) := by simpa [hfree, handedBack] using hrange
    exact withholdPinnedFrames_free (hg.imp_right fun h => h.1) hfree
  | withheld | full => simp [hfree, handedBack] at hrange

/-- **One transaction** that meets the condition keeps the ledger sound and hands
back only frames no holder can reach. -/
theorem step_spec
    (hg : Custodial reg op) (h : step reg op = some (r, reg')) : (ledger reg').Sound Permanent ∧
      ∀ range ∈ handedBack op r, ∀ x ∈ reg'.holders, ¬SharesFrame x.range range := by
  cases op <;> cases h
  case acknowledge tid => exact acknowledge_spec hs tid
  case releaseVfsLease => exact releaseVfsLease_spec hs ..
  case releaseVfsHolderLeases holderTid => exact releaseVfsHolderLeases_spec hs holderTid
  case withholdPinnedFrames => exact withholdPinnedFrames_spec hs hg
  -- the others hand nothing back
  all_goals refine ⟨?_, by simp [handedBack]⟩
  case pin base len owner => exact (pin_adds reg base len owner).sound hs hg
  case beginCacheSync base len owner => exact (beginCacheSync_adds reg base len owner).sound hs hg
  case pinVfsLease grantId _ => exact (pinVfsLease_adds reg _ _ _ _ grantId _).sound hs hg
  case withholdFrames => exact holdQuarantinedFrames_sound hs fun _ => hg
  case withholdVfsFrames base pages holderTid grantOwner requestGeneration =>
    show (ledger (withholdVfsFrames reg base pages holderTid grantOwner requestGeneration).2).Sound _
    unfold withholdVfsFrames
    split_ifs
    · exact holdQuarantinedFrames_sound hs fun _ => hg
    · exact hs
  case rollbackPin => exact (rollbackPin_adds reg ..).sound hs
  case beginCacheSyncCompletion => exact (beginCacheSyncCompletion_adds reg ..).sound hs
  case completeCacheSync => exact (dropCacheSync_adds reg ..).sound hs
  case cancelCacheSync => exact (dropCacheSync_adds reg ..).sound hs
  case markVfsLeasePendingRevoke => exact (markVfsLeasePendingRevoke_adds reg ..).sound hs
  case quarantineTask tid => exact (quarantineTask_adds reg tid).sound hs

omit hs

end Safety

/-! ## runs -/

theorem sound_boot : (ledger Registry.boot).Sound Permanent := by
  rintro _ ⟨q, hq, rfl⟩
  obtain ⟨hmem, hp⟩ := mem_holds.mp hq
  rw [eq_of_mem_replicate hmem] at hp
  exact absurd rfl hp

/-- **Frames are handed back only when nothing can reach them**, in every run whose transactions
all meet `Custodial`: when a transfer answers free, or a range is returned, no live pin, cache
operation or lease has a frame in it in the registry that is left. -/
theorem handedBack_unreachable_of_custodial {ops : List Op} {op : Op} {rs : List Response}
    {r : Response} {reg reg' : Registry}
    (hguard : Guarded step Custodial Registry.boot (ops ++ [op]))
    (hrun : run step Registry.boot ops = some (rs, reg)) (hstep : step reg op = some (r, reg')) :
    ∀ range ∈ handedBack op r, ∀ x ∈ reg'.holders, ¬SharesFrame x.range range := by
  obtain ⟨hops, hop⟩ := hguard.append hrun
  have hsound : (ledger reg).Sound Permanent :=
    run_invariant_of_guarded (P := fun reg => (ledger reg).Sound Permanent)
      (fun _ _ _ _ hs hg h => (step_spec hs hg h).1) hrun hops sound_boot
  exact (step_spec hsound hop.1 hstep).2

/-- One page pinned by task 7 and by nobody else, then withheld. -/
def pinnedOnce : List Op := [.pin 0x80000000 4096 7, .withholdPinnedFrames 0x80000000 1]

theorem handedBack_unreachable_pinnedOnce :
    ∃ rs reg reg', run step Registry.boot pinnedOnce = some (rs, reg) ∧
      step reg (.acknowledge 7) = some (.released [(0x80000000, 1)], reg') ∧
      ∀ x ∈ reg'.holders, ¬SharesFrame x.range (0x80000000, 1) := by
  obtain ⟨rs, reg, hrun, _, reg', hstep, rfl⟩ : ∃ rs reg,
      run step Registry.boot pinnedOnce = some (rs, reg) ∧
        ∃ r reg', step reg (.acknowledge 7) = some (r, reg') ∧ r = .released [(0x80000000, 1)] := by
    decide +kernel
  exact ⟨rs, reg, reg', hrun, hstep, handedBack_unreachable_of_custodial (by decide +kernel) hrun
    hstep _ mem_cons_self⟩

/-- The same page leased to task 9 as well. -/
def pinnedAndLeased : List Op :=
  [.pin 0x80000000 4096 7, .pinVfsLease 0x80000000 4096 7 9 1 1, .withholdPinnedFrames 0x80000000 1]

/-- The acknowledgement of task 7 hands the page back while task 9's lease on it is live. -/
theorem acknowledge_frees_leased_frames :
    ((run step Registry.boot (pinnedAndLeased ++ [.acknowledge 7])).any fun out =>
      decide (out.1.getLast? = some (.released [(0x80000000, 1)])) &&
      out.2.holders.any fun x => decide (x.key = .vfsLease 9 7 1 ∧
        SharesFrame x.range (0x80000000, 1))) = true := by
  decide +kernel

end Cellos.Memory.Pin
