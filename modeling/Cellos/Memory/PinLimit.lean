import Cellos.Memory.PinSafety

/-!
# Cellos.Memory.PinLimit

How many regions one task keeps out of the allocator's reach.

`MAX_PINS_PER_TASK` is a ceiling per owner.  `begin_cache_sync` counts the owner's pins and
its cache operations before it opens a region; `pin` counts the pins only.  Their sum stays
within the ceiling in every run whose `pin` steps find the owner below it, without a cache
operation, or with that very region open.
-/

namespace Cellos.Memory.Pin

open Lib List

variable (reg : Registry)

/-- The pin regions a task holds. -/
def pinsOf (tid : Nat) : Nat := reg.pins.countP fun e => e.pages != 0 && e.owner == tid

/-- The regions of a task's cache operations. -/
def syncsOf (tid : Nat) : Nat := reg.cacheSync.countP fun e => e.pages != 0 && e.owner == tid

/-- All regions a task holds. -/
def regionsOf (tid : Nat) : Nat := pinsOf reg tid + syncsOf reg tid

/-- A `pin` of this range would hold an open region of the owner once more. -/
def pinnedAlready (base len owner : Nat) : Bool := reg.pins.any fun e =>
    e.pages != 0 && e.owner == owner && !e.quarantined && span base len == some (e.base, e.pages)

/-- The condition: a `pin` finds its owner below the ceiling, without cache operations, or
with the region open. -/
def Roomy : Op → Prop
  | .pin base len owner =>
    regionsOf reg owner < maxPinsPerTask ∨ syncsOf reg owner = 0 ∨
      pinnedAlready reg base len owner = true
  | _ => True

instance (reg : Registry) : DecidablePred (Roomy reg) := fun op => by
  rcases op <;> dsimp only [Roomy] <;> infer_instance

/-! ## counting over a table -/

section Counting

variable {α : Type}

theorem countP_set_le (hx : p x = true → q = true) (l : List α) (i : Nat) :
    (l.set i x).countP p ≤ l.countP p + if q then 1 else 0 := by
  have hle : (if p x = true then 1 else 0) ≤ if q then 1 else 0 := by grind
  by_cases hi : i < l.length
  · rw [countP_set hi]
    omega
  · rw [set_eq_of_length_le (Nat.le_of_not_lt hi)]
    omega

theorem countP_modify_le (hf : ∀ a, p (f a) = true → p a = true) (l : List α)
    (i : Nat) : (l.modify i f).countP p ≤ l.countP p := by
  induction l generalizing i with
  | nil => simp
  | cons a l ih =>
    cases i with
    | zero =>
      rw [modify_zero_cons, countP_cons, countP_cons]
      split
      · simp [hf a ‹_›]
      · omega
    | succ i =>
      rw [modify_succ_cons, countP_cons, countP_cons]
      have := ih i
      omega

theorem countP_map_le (hf : ∀ a, p (f a) = true → p a = true) (l : List α) :
    (l.map f).countP p ≤ l.countP p := by
  rw [countP_map]
  exact countP_mono_left fun a _ => hf a

end Counting

/-! ## what each transaction does to the count -/

section Transactions

variable {reg : Registry}

theorem regionsOf_set_pins_le (slot : Nat) (e : PinEntry) :
    regionsOf { reg with pins := reg.pins.set slot e } tid ≤
      regionsOf reg tid + if e.owner == tid then 1 else 0 := by
  have hset := countP_set_le (p := fun e => e.pages != 0 && e.owner == tid) (x := e)
    (fun h => (Bool.and_eq_true_iff.mp h).2) reg.pins slot
  unfold regionsOf pinsOf syncsOf
  dsimp only
  omega

theorem regionsOf_set_cacheSync_le (slot n : Nat) (e : CacheSyncEntry) :
    regionsOf { reg with nextCacheToken := n, cacheSync := reg.cacheSync.set slot e } tid ≤
      regionsOf reg tid + if e.owner == tid then 1 else 0 := by
  have hset := countP_set_le (p := fun e => e.pages != 0 && e.owner == tid) (x := e)
    (fun h => (Bool.and_eq_true_iff.mp h).2) reg.cacheSync slot
  unfold regionsOf pinsOf syncsOf
  dsimp only
  omega

/-- A scan that finds no region to hold again has counted every pin of the owner. -/
theorem scanPins_of_existing_eq_none (h : (scanPins start pages owner es i scan).existing = none) :
    (scanPins start pages owner es i scan).owned =
        scan.owned + es.countP (fun e => e.pages != 0 && e.owner == owner) ∧
      ∀ e ∈ es, e.pages ≠ 0 → e.owner = owner → e.quarantined = false →
        (e.base, e.pages) ≠ (start, pages) := by
  fun_induction scanPins start pages owner es i scan with
  | case1 => simp
  | case2 i scan e es hfree ih => simpa [hfree] using ih h
  | case3 => cases h
  | case4 i scan e es hused howner hother ih =>
    obtain ⟨hcount, hrest⟩ := ih h
    refine ⟨?_, forall_mem_cons.mpr ⟨fun _ _ hq heq => hother ?_, hrest⟩⟩
    · rw [hcount, countP_cons, if_pos (by simp [hused, howner])]
      dsimp only
      omega
    · obtain ⟨hbase, hpages⟩ := Prod.mk.inj heq
      exact ⟨hbase, hpages, hq⟩
  | case5 i scan e es hused howner ih =>
    obtain ⟨hcount, hrest⟩ := ih h
    exact ⟨by simpa [howner] using hcount,
      forall_mem_cons.mpr ⟨fun _ ho => absurd ho howner, hrest⟩⟩

/-- The count of a task either does not grow, or grows by one below the ceiling. -/
def Grows (reg reg' : Registry) (tid : Nat) : Prop := regionsOf reg' tid ≤ regionsOf reg tid ∨
    regionsOf reg tid < maxPinsPerTask ∧ regionsOf reg' tid ≤ regionsOf reg tid + 1

theorem Grows.refl : Grows reg reg tid := .inl le_rfl

/-- A new region of an owner below the ceiling. -/
theorem Grows.of_owner (hroom : regionsOf reg owner < maxPinsPerTask)
    (h : regionsOf reg' tid ≤ regionsOf reg tid + if owner == tid then 1 else 0) :
    Grows reg reg' tid := by
  by_cases ho : owner = tid
  · subst ho
    exact .inr ⟨hroom, by simpa using h⟩
  · exact .inl (by simpa [ho] using h)

theorem pin_grows (hg : Roomy reg (.pin base len owner)) :
    Grows reg (pin reg base len owner).2 tid := by
  unfold pin
  split
  · exact .refl
  next start pages hspan =>
  dsimp only
  split
  · refine .inl (Nat.add_le_add_right ?_ _)
    exact countP_modify_le (by exact fun _ h => h) _ _
  next hnone =>
  obtain ⟨howned, hopen⟩ := scanPins_of_existing_eq_none hnone
  split
  · exact .refl
  next hroom =>
  split
  · exact .refl
  next slot _ =>
  -- the region was not open before, so the condition leaves the first two cases
  have hbelow : regionsOf reg owner < maxPinsPerTask := by
    obtain hlt | hsyncs | hheld := hg
    · exact hlt
    · unfold regionsOf pinsOf
      omega
    · obtain ⟨e, he, hmatch⟩ := any_eq_true.mp hheld
      simp only [hspan, Bool.and_eq_true, bne_iff_ne, beq_iff_eq, Bool.not_eq_true',
        Option.some.injEq] at hmatch
      exact absurd hmatch.2.symm (hopen e he hmatch.1.1.1 hmatch.1.1.2 hmatch.1.2)
  exact .of_owner hbelow (regionsOf_set_pins_le slot _)

theorem rollbackPin_grows (base len owner : Nat) :
    Grows reg (rollbackPin reg base len owner).2 tid := by
  unfold rollbackPin
  split
  · exact .refl
  split
  · exact .refl
  refine .inl (Nat.add_le_add_right (countP_modify_le (fun e h => ?_) _ _) _)
  split at h
  · exact h
  · simp at h

theorem beginCacheSync_grows (base len owner : Nat) :
    Grows reg (beginCacheSync reg base len owner).2 tid := by
  unfold beginCacheSync
  split
  · exact .refl
  next start pages _ =>
  dsimp only
  split
  · exact .refl
  next hroom =>
  split
  · exact .refl
  next slot _ =>
  exact .of_owner (Nat.lt_of_not_le hroom) (regionsOf_set_cacheSync_le slot _ _)

theorem beginCacheSyncCompletion_grows (token owner : Nat) :
    Grows reg (beginCacheSyncCompletion reg token owner).2 tid := by
  unfold beginCacheSyncCompletion
  split
  · exact .refl
  split
  · exact .refl
  · refine .inl (Nat.add_le_add_left ?_ _)
    exact countP_modify_le (by exact fun _ h => h) _ _

theorem dropCacheSync_grows (ready : CacheSyncEntry → Bool) (token owner : Nat) :
    Grows reg (dropCacheSync ready reg token owner).2 tid := by
  unfold dropCacheSync
  split
  · exact .refl
  split
  · exact .refl
  refine .inl (Nat.add_le_add_left ?_ _)
  rw [set_eq_modify]
  exact countP_modify_le (by simp) _ _

theorem quarantineTask_grows (owner : Nat) : Grows reg (quarantineTask reg owner).2 tid :=
  .inl (Nat.add_le_add (countP_map_le (fun e h => by split at h <;> exact h) _)
    (countP_map_le (fun e h => by split at h <;> exact h) _))

theorem acknowledge_grows (owner : Nat) : Grows reg (acknowledge reg owner).2 tid :=
  .inl (Nat.add_le_add_right (countP_map_le (fun e h => by
    split at h
    · simp at h
    · exact h) _) _)

theorem grows_of_tables (hpins : reg'.pins = reg.pins)
    (hsyncs : reg'.cacheSync = reg.cacheSync) : Grows reg reg' tid := by
  refine .inl (Nat.le_of_eq ?_)
  unfold regionsOf pinsOf syncsOf
  rw [hpins, hsyncs]

theorem holdQuarantinedFrames_grows (base pages : Nat) (release : ReleaseKey) :
    Grows reg (holdQuarantinedFrames reg base pages release).2 tid := by
  unfold holdQuarantinedFrames
  split
  · exact .refl
  split <;> exact grows_of_tables rfl rfl

theorem pinVfsLease_grows (base len grantOwner holderTid grantId requestGeneration : Nat) :
    Grows reg (pinVfsLease reg base len grantOwner holderTid grantId requestGeneration).2 tid := by
  unfold pinVfsLease
  split
  · exact .refl
  split
  · exact .refl
  split
  · exact .refl
  split <;> exact grows_of_tables rfl rfl

theorem withholdPinnedFrames_grows (base pages : Nat) :
    Grows reg (withholdPinnedFrames reg base pages).2 tid := by
  obtain ⟨heq, -⟩ | ⟨_, release, _, _, -, heq⟩ := withholdPinnedFrames_cases reg base pages
  · rw [heq]
    exact .refl
  · rw [heq]
    exact holdQuarantinedFrames_grows base pages release

theorem withholdVfsFrames_grows (base pages holderTid grantOwner requestGeneration : Nat) :
    Grows reg (withholdVfsFrames reg base pages holderTid grantOwner requestGeneration).2 tid := by
  unfold withholdVfsFrames
  split
  · exact holdQuarantinedFrames_grows base pages _
  · exact .refl

theorem markVfsLeasePendingRevoke_grows (holderTid grantOwner requestGeneration : Nat) :
    Grows reg (markVfsLeasePendingRevoke reg holderTid grantOwner requestGeneration).2 tid := by
  unfold markVfsLeasePendingRevoke
  split
  · exact .refl
  · exact grows_of_tables rfl rfl

/-- What one transaction does to the count of any task. -/
theorem step_grows (hg : Roomy reg op) (h : step reg op = some (r, reg')) : Grows reg reg' tid := by
  cases op <;> cases h
  case pin => exact pin_grows hg
  case rollbackPin => exact rollbackPin_grows ..
  case beginCacheSync => exact beginCacheSync_grows ..
  case beginCacheSyncCompletion => exact beginCacheSyncCompletion_grows ..
  case completeCacheSync => exact dropCacheSync_grows ..
  case cancelCacheSync => exact dropCacheSync_grows ..
  case pinVfsLease => exact pinVfsLease_grows ..
  case markVfsLeasePendingRevoke => exact markVfsLeasePendingRevoke_grows ..
  case releaseVfsLease => exact grows_of_tables rfl rfl
  case releaseVfsHolderLeases => exact grows_of_tables rfl rfl
  case quarantineTask owner => exact quarantineTask_grows owner
  case withholdFrames => exact holdQuarantinedFrames_grows ..
  case withholdVfsFrames => exact withholdVfsFrames_grows ..
  case withholdPinnedFrames => exact withholdPinnedFrames_grows ..
  case acknowledge owner => exact acknowledge_grows owner

end Transactions

/-! ## runs -/

theorem regionsOf_boot (tid : Nat) : regionsOf Registry.boot tid = 0 := by
  simp [regionsOf, pinsOf, syncsOf, Registry.boot, countP_replicate]

/-- **The ceiling holds for pins and cache operations together**, for every task and in every run
whose `pin` steps are roomy. -/
theorem regionsOf_le_of_roomy {ops : List Op} {rs : List Response} {reg : Registry}
    (hg : Guarded step Roomy Registry.boot ops)
    (hrun : run step Registry.boot ops = some (rs, reg)) (tid : Nat) :
    regionsOf reg tid ≤ maxPinsPerTask := by
  refine run_invariant_of_guarded (P := fun reg => regionsOf reg tid ≤ maxPinsPerTask)
    (fun reg op r reg' hle hroomy hstep => ?_) hrun hg (regionsOf_boot tid ▸ Nat.zero_le _)
  have hgrows : Grows reg reg' tid := step_grows hroomy hstep
  unfold Grows at hgrows
  omega

/-- A task that pins, begins a cache operation and pins again. -/
def mixedHolds : List Op :=
  [.pin 0x80000000 4096 7, .beginCacheSync 0x80000000 4096 7, .pin 0x80001000 4096 7]

theorem regionsOf_le_mixedHolds : ∃ rs reg, run step Registry.boot mixedHolds = some (rs, reg) ∧
    regionsOf reg 7 = 3 ∧ regionsOf reg 7 ≤ maxPinsPerTask := by
  have hg : Guarded step Roomy Registry.boot mixedHolds := by decide +kernel
  obtain ⟨rs, reg, hrun, hregions⟩ : ∃ rs reg, run step Registry.boot mixedHolds = some (rs, reg) ∧
      regionsOf reg 7 = 3 := by decide +kernel
  exact ⟨rs, reg, hrun, hregions, regionsOf_le_of_roomy hg hrun 7⟩

/-- A task that begins as many cache operations as the ceiling allows and then pins. -/
def syncsThenPin : List Op :=
  List.replicate maxPinsPerTask (.beginCacheSync 0x80000000 4096 7) ++ [.pin 0x80000000 4096 7]

/-- `pin` does not see the cache operations: the task ends one region above the ceiling. -/
theorem pin_exceeds_limit : ∃ rs reg, run step Registry.boot syncsThenPin = some (rs, reg) ∧
    regionsOf reg 7 = maxPinsPerTask + 1 := by
  decide +kernel

end Cellos.Memory.Pin
