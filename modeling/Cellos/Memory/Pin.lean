import Cellos.Lib

/-!
# Cellos.Memory.Pin

The pin registry (`kernel/src/memory/pin.rs`): which memory regions a device, a
cache operation or a file-system request may still reach, and which frames the
reaper has therefore withheld from the allocator.

One lock covers all tables, so every function below is one transaction on the
`Registry`.  Tables are fixed arrays in the source; an entry with `pages = 0` is
a free slot.
-/

namespace Cellos.Memory.Pin

def pageSize : Nat := 4096

/-- Regions tracked as pinned at one time. -/
def maxPinnedRegions : Nat := 128

/-- Regions one owner may hold. -/
def maxPinsPerTask : Nat := 48

/-- Frame ranges the quarantine can hold. -/
def maxQuarantinedRegions : Nat := 64

def maxVfsLeases : Nat := 32

/-- Why a region could not be pinned. -/
inductive PinError where
  | invalidRange | tableFull | taskLimit
deriving DecidableEq

/-- Why a lease could not be taken; the context and ownership errors are raised by
the system call around it. -/
inductive VfsLeaseError where
  | invalidRange | tableFull | taskLimit | missingCallerContext | wrongOwner | wrongGrantee
  | duplicateLease
deriving DecidableEq

/-! ## the tables -/

/-- A region pinned for DMA. -/
structure PinEntry where
  base : Nat := 0
  pages : Nat := 0
  owner : Nat := 0
  holds : Nat := 0
  quarantined : Bool := false

/-- One cache-maintenance operation, released only by its token. -/
structure CacheSyncEntry where
  operationBase : Nat := 0
  operationLen : Nat := 0
  base : Nat := 0
  pages : Nat := 0
  owner : Nat := 0
  token : Nat := 0
  completing : Bool := false
  quarantined : Bool := false

/-- One file-system request's lease on a grant. -/
structure VfsLeaseEntry where
  base : Nat := 0
  pages : Nat := 0
  grantOwner : Nat := 0
  holderTid : Nat := 0
  grantId : Nat := 0
  requestGeneration : Nat := 0
  quarantined : Bool := false
  pendingRevoke : Bool := false

/-- What a quarantined range waits for. -/
inductive ReleaseKey where
  | none
  | owner (tid : Nat)
  | cacheSyncBootLifetime
  | vfsLease (holderTid grantOwner requestGeneration : Nat)
deriving DecidableEq

/-- Frames the reaper declined to return to the allocator. -/
structure FrameHold where
  base : Nat := 0
  pages : Nat := 0
  release : ReleaseKey := .none

/-- Outcome of the pin-to-quarantine transfer. -/
inductive FrameTransfer where
  | free | withheld | full
deriving DecidableEq

structure Registry where
  pins : List PinEntry
  cacheSync : List CacheSyncEntry
  nextCacheToken : Nat
  vfsLeases : List VfsLeaseEntry
  quarantine : List FrameHold

/-- The registry at boot: every slot is free. -/
def Registry.boot : Registry :=
  { pins := List.replicate maxPinnedRegions {}
    cacheSync := List.replicate maxPinnedRegions {}
    nextCacheToken := 1
    vfsLeases := List.replicate maxVfsLeases {}
    quarantine := List.replicate maxQuarantinedRegions {} }

/-! ## ranges -/

/-- Page-aligned `(base, page count)` that covers `[base, base + len)`. -/
def span (base len : Nat) : Option (Nat × Nat) :=
  if len = 0 then none
  else if 2 ^ 64 ≤ base + len then none
  else if 2 ^ 64 ≤ base + len + (pageSize - 1) then none
  else
    let start := base / pageSize * pageSize
    let stop := (base + len + (pageSize - 1)) / pageSize * pageSize
    some (start, (stop - start) / pageSize)

/-- Whether two `(base, pages)` ranges intersect. -/
def overlaps (a b : Nat × Nat) : Bool :=
  decide (a.1 < b.1 + b.2 * pageSize) && decide (b.1 < a.1 + a.2 * pageSize)

/-! ## quarantine -/

variable (reg : Registry)

/-- `hold_quarantined_frames`: put a range into the first free quarantine slot. -/
def holdQuarantinedFrames (base pages : Nat) (release : ReleaseKey) : Bool × Registry :=
  if pages = 0 then (false, reg)
  else match reg.quarantine.findIdx? (fun entry => entry.pages == 0) with
    | some i => (true, { reg with quarantine := reg.quarantine.set i { base, pages, release } })
    | none => (false, reg)

/-- `release_quarantined_frames`: take every range whose key matches out of the quarantine. -/
def releaseQuarantinedFrames (isMatch : ReleaseKey → Bool) : List (Nat × Nat) × Registry :=
  let released := (reg.quarantine.filter fun hold => hold.pages != 0 && isMatch hold.release).map
    fun hold => (hold.base, hold.pages)
  let quarantine := reg.quarantine.map fun hold =>
    if hold.pages != 0 && isMatch hold.release then {} else hold
  (released, { reg with quarantine })

/-! ## pins -/

/-- What the scan of the pin table has seen so far. -/
structure PinScan where
  owned : Nat
  (freeSlot existing : Option Nat)

/-- The scan of `pin`: count the owner's regions, remember the first free slot,
and stop at a region that can be held once more. -/
def scanPins (start pages owner : Nat) : List PinEntry → Nat → PinScan → PinScan
  | [], _, scan => scan
  | e :: es, i, scan =>
    if e.pages = 0 then
      scanPins start pages owner es (i + 1)
        { scan with freeSlot := scan.freeSlot <|> some i }
    else if e.owner = owner then
      if e.base = start ∧ e.pages = pages ∧ e.quarantined = false then
        { scan with owned := scan.owned + 1, existing := some i }
      else scanPins start pages owner es (i + 1) { scan with owned := scan.owned + 1 }
    else scanPins start pages owner es (i + 1) scan

/-- `pin`. -/
def pin (base len owner : Nat) : Except PinError Unit × Registry :=
  match span base len with
  | none => (.error .invalidRange, reg)
  | some (start, pages) =>
    let scan := scanPins start pages owner reg.pins 0 ⟨0, none, none⟩
    match scan.existing with
    | some i =>
      -- `saturating_add` on a 32-bit count
      (.ok (), { reg with
        pins := reg.pins.modify i fun e => { e with holds := min (e.holds + 1) (2 ^ 32 - 1) } })
    | none =>
      if maxPinsPerTask ≤ scan.owned then (.error .taskLimit, reg)
      else match scan.freeSlot with
        | none => (.error .tableFull, reg)
        | some slot =>
          (.ok (), { reg with
            pins := reg.pins.set slot
              { base := start, pages, owner, holds := 1, quarantined := false } })

/-- `rollback_pin`. -/
def rollbackPin (base len owner : Nat) : Bool × Registry :=
  match span base len with
  | none => (false, reg)
  | some (start, pages) =>
    match reg.pins.findIdx? (fun e =>
        e.pages == pages && e.base == start && e.owner == owner && !e.quarantined) with
    | none => (false, reg)
    | some i =>
      (true, { reg with
        pins := reg.pins.modify i fun e =>
          if 1 < e.holds then { e with holds := e.holds - 1 } else {} })

/-! ## cache synchronisation -/

/-- `begin_cache_sync`: the token counter wraps and skips zero. -/
def beginCacheSync (base len owner : Nat) : Except PinError Nat × Registry :=
  match span base len with
  | none => (.error .invalidRange, reg)
  | some (start, pages) =>
    let owned := reg.pins.countP (fun e => e.pages != 0 && e.owner == owner) +
      reg.cacheSync.countP (fun e => e.pages != 0 && e.owner == owner)
    if maxPinsPerTask ≤ owned then (.error .taskLimit, reg)
    else match reg.cacheSync.findIdx? (fun e => e.pages == 0) with
      | none => (.error .tableFull, reg)
      | some slot =>
        let token := if reg.nextCacheToken = 0 then 1 else reg.nextCacheToken
        let next := (token + 1) % 2 ^ 64
        (.ok token, { reg with
          nextCacheToken := if next = 0 then 1 else next
          cacheSync := reg.cacheSync.set slot
            { operationBase := base, operationLen := len, base := start, pages, owner, token,
              completing := false, quarantined := false } })

/-- `begin_cache_sync_completion`: mark the operation and answer its byte range. -/
def beginCacheSyncCompletion (token owner : Nat) : Option (Nat × Nat) × Registry :=
  if token = 0 then (none, reg)
  else match reg.cacheSync.findIdx? (fun e =>
      e.pages != 0 && e.owner == owner && e.token == token && !e.completing) with
    | none => (none, reg)
    | some i =>
      (reg.cacheSync[i]?.map fun e => (e.operationBase, e.operationLen),
        { reg with cacheSync := reg.cacheSync.modify i fun e => { e with completing := true } })

/-- Drop the first cache operation of `(owner, token)` that satisfies `ready`. -/
def dropCacheSync (ready : CacheSyncEntry → Bool) (reg : Registry) (token owner : Nat) :
    Bool × Registry :=
  if token = 0 then (false, reg)
  else match reg.cacheSync.findIdx? (fun e =>
      e.pages != 0 && e.owner == owner && e.token == token && ready e) with
    | none => (false, reg)
    | some i => (true, { reg with cacheSync := reg.cacheSync.set i {} })

/-- `complete_cache_sync`: only an operation whose completion has begun. -/
def completeCacheSync (token owner : Nat) : Bool × Registry :=
  dropCacheSync (fun e => e.completing) reg token owner

/-- `cancel_cache_sync`. -/
def cancelCacheSync (token owner : Nat) : Bool × Registry :=
  dropCacheSync (fun _ => true) reg token owner

/-! ## leases -/

/-- `same_vfs_lease`. -/
def sameVfsLease (entry : VfsLeaseEntry) (holderTid grantOwner requestGeneration : Nat) : Bool :=
  entry.pages != 0 && entry.holderTid == holderTid && entry.grantOwner == grantOwner &&
    entry.requestGeneration == requestGeneration

/-- The scan of `pin_vfs_lease`: `none` on a duplicate, else how many leases the
holder has and the first free slot. -/
def scanLeases (holderTid grantOwner requestGeneration : Nat) :
    List VfsLeaseEntry → Nat → Nat × Option Nat → Option (Nat × Option Nat)
  | [], _, scan => some scan
  | e :: es, i, (owned, freeSlot) =>
    if e.pages = 0 then
      scanLeases holderTid grantOwner requestGeneration es (i + 1) (owned, freeSlot <|> some i)
    else if sameVfsLease e holderTid grantOwner requestGeneration then none
    else scanLeases holderTid grantOwner requestGeneration es (i + 1)
      (if e.holderTid = holderTid then owned + 1 else owned, freeSlot)

/-- `pin_vfs_lease`. -/
def pinVfsLease (base len grantOwner holderTid grantId requestGeneration : Nat) :
    Except VfsLeaseError Unit × Registry :=
  match span base len with
  | none => (.error .invalidRange, reg)
  | some (start, pages) =>
    match scanLeases holderTid grantOwner requestGeneration reg.vfsLeases 0 (0, none) with
    | none => (.error .duplicateLease, reg)
    | some (owned, freeSlot) =>
      if maxPinsPerTask ≤ owned then (.error .taskLimit, reg)
      else match freeSlot with
        | none => (.error .tableFull, reg)
        | some slot =>
          (.ok (), { reg with
            vfsLeases := reg.vfsLeases.set slot
              { base := start, pages, grantOwner, holderTid, grantId, requestGeneration,
                quarantined := false, pendingRevoke := false } })

/-- `mark_vfs_lease_pending_revoke`. -/
def markVfsLeasePendingRevoke (holderTid grantOwner requestGeneration : Nat) : Bool × Registry :=
  match reg.vfsLeases.findIdx? (fun e => sameVfsLease e holderTid grantOwner requestGeneration) with
  | none => (false, reg)
  | some i =>
    (true, { reg with
      vfsLeases := reg.vfsLeases.modify i fun e =>
        { e with quarantined := true, pendingRevoke := true } })

/-- `release_vfs_lease`: drop the exact lease and hand back what waited for it. -/
def releaseVfsLease (holderTid grantOwner requestGeneration : Nat) : List (Nat × Nat) × Registry :=
  let vfsLeases := reg.vfsLeases.map fun e =>
    if sameVfsLease e holderTid grantOwner requestGeneration then {} else e
  releaseQuarantinedFrames { reg with vfsLeases } fun release =>
    release == .vfsLease holderTid grantOwner requestGeneration

/-- The key of some lease of the holder. -/
def isLeaseOf (holderTid : Nat) : ReleaseKey → Bool
  | .vfsLease leaseHolder _ _ => leaseHolder == holderTid
  | _ => false

/-- `release_vfs_holder_leases`: the holder has died. -/
def releaseVfsHolderLeases (holderTid : Nat) : List (Nat × Nat) × Registry :=
  let vfsLeases := reg.vfsLeases.map fun e =>
    if e.pages != 0 && e.holderTid == holderTid then {} else e
  releaseQuarantinedFrames { reg with vfsLeases } (isLeaseOf holderTid)

/-! ## the reaper and the acknowledgement -/

/-- `quarantine_task`: mark the dying task's pins and cache operations. -/
def quarantineTask (tid : Nat) : Nat × Registry :=
  let marked := reg.pins.countP (fun e => e.pages != 0 && e.owner == tid) +
    reg.cacheSync.countP (fun e => e.pages != 0 && e.owner == tid)
  (marked, { reg with
    pins := reg.pins.map fun e =>
      if e.pages != 0 && e.owner == tid then { e with quarantined := true } else e
    cacheSync := reg.cacheSync.map fun e =>
      if e.pages != 0 && e.owner == tid then { e with quarantined := true } else e })

/-- `withhold_frames`. -/
def withholdFrames (base pages owner : Nat) : Bool × Registry :=
  holdQuarantinedFrames reg base pages (.owner owner)

/-- `withhold_vfs_frames`: only under a lease that exists. -/
def withholdVfsFrames (base pages holderTid grantOwner requestGeneration : Nat) : Bool × Registry :=
  if reg.vfsLeases.any fun e => sameVfsLease e holderTid grantOwner requestGeneration then
    holdQuarantinedFrames reg base pages (.vfsLease holderTid grantOwner requestGeneration)
  else (false, reg)

/-- The key under which `withhold_pinned_frames` would quarantine a range: of the first
overlapping pin, then a cache operation, then a lease. -/
def transferKey (probe : Nat × Nat) : Option ReleaseKey :=
  match reg.pins.find? (fun e => e.pages != 0 && overlaps probe (e.base, e.pages)) with
  | some e => some (.owner e.owner)
  | none =>
    match reg.cacheSync.find? (fun e => e.pages != 0 && overlaps probe (e.base, e.pages)) with
    | some _ => some .cacheSyncBootLifetime
    | none =>
      (reg.vfsLeases.find? (fun e => e.pages != 0 && overlaps probe (e.base, e.pages))).map
        fun e => .vfsLease e.holderTid e.grantOwner e.requestGeneration

/-- `withhold_pinned_frames`: decide in one transaction whether a dying owner's
frames are free or must wait. -/
def withholdPinnedFrames (base pages : Nat) : FrameTransfer × Registry :=
  -- `checked_mul`
  if 2 ^ 64 ≤ pages * pageSize then (.free, reg)
  else match span base (pages * pageSize) with
    | none => (.free, reg)
    | some probe => match transferKey reg probe with
      | none => (.free, reg)
      | some release => match holdQuarantinedFrames reg base pages release with
        | (true, reg) => (.withheld, reg)
        | (false, reg) => (.full, reg)

/-- `acknowledge`: drop the task's pins and hand back the ranges that waited for it. -/
def acknowledge (tid : Nat) : List (Nat × Nat) × Registry :=
  let pins := reg.pins.map fun e => if e.pages != 0 && e.owner == tid then {} else e
  releaseQuarantinedFrames { reg with pins } fun release => release == .owner tid

/-! ## the transaction machine -/

/-- One registry transaction. -/
inductive Op where
  | pin (base len owner : Nat)
  | rollbackPin (base len owner : Nat)
  | beginCacheSync (base len owner : Nat)
  | beginCacheSyncCompletion (token owner : Nat)
  | completeCacheSync (token owner : Nat)
  | cancelCacheSync (token owner : Nat)
  | pinVfsLease (base len grantOwner holderTid grantId requestGeneration : Nat)
  | markVfsLeasePendingRevoke (holderTid grantOwner requestGeneration : Nat)
  | releaseVfsLease (holderTid grantOwner requestGeneration : Nat)
  | releaseVfsHolderLeases (holderTid : Nat)
  | quarantineTask (tid : Nat)
  | withholdFrames (base pages owner : Nat)
  | withholdVfsFrames (base pages holderTid grantOwner requestGeneration : Nat)
  | withholdPinnedFrames (base pages : Nat)
  | acknowledge (tid : Nat)

/-- The answer of a transaction. -/
inductive Response where
  | unit (result : Except PinError Unit)
  | flag (result : Bool)
  | token (result : Except PinError Nat)
  | range (result : Option (Nat × Nat))
  | lease (result : Except VfsLeaseError Unit)
  | count (n : Nat)
  | transfer (result : FrameTransfer)
  | released (ranges : List (Nat × Nat))
deriving DecidableEq

/-- One transaction on the registry; every one of them returns. -/
def step : Op → Option (Response × Registry)
  | .pin base len owner => some ((pin reg base len owner).map .unit id)
  | .rollbackPin base len owner => some ((rollbackPin reg base len owner).map .flag id)
  | .beginCacheSync base len owner => some ((beginCacheSync reg base len owner).map .token id)
  | .beginCacheSyncCompletion token owner =>
    some ((beginCacheSyncCompletion reg token owner).map .range id)
  | .completeCacheSync token owner => some ((completeCacheSync reg token owner).map .flag id)
  | .cancelCacheSync token owner => some ((cancelCacheSync reg token owner).map .flag id)
  | .pinVfsLease base len grantOwner holderTid grantId requestGeneration =>
    some ((pinVfsLease reg base len grantOwner holderTid grantId requestGeneration).map .lease id)
  | .markVfsLeasePendingRevoke holderTid grantOwner requestGeneration =>
    some ((markVfsLeasePendingRevoke reg holderTid grantOwner requestGeneration).map .flag id)
  | .releaseVfsLease holderTid grantOwner requestGeneration =>
    some ((releaseVfsLease reg holderTid grantOwner requestGeneration).map .released id)
  | .releaseVfsHolderLeases holderTid =>
    some ((releaseVfsHolderLeases reg holderTid).map .released id)
  | .quarantineTask tid => some ((quarantineTask reg tid).map .count id)
  | .withholdFrames base pages owner => some ((withholdFrames reg base pages owner).map .flag id)
  | .withholdVfsFrames base pages holderTid grantOwner requestGeneration =>
    some ((withholdVfsFrames reg base pages holderTid grantOwner requestGeneration).map .flag id)
  | .withholdPinnedFrames base pages =>
    some ((withholdPinnedFrames reg base pages).map .transfer id)
  | .acknowledge tid => some ((acknowledge reg tid).map .released id)

/-- The ranges whose frames the caller returns to the allocator after a transaction. -/
def handedBack : Op → Response → List (Nat × Nat)
  | .withholdPinnedFrames base pages, .transfer .free => [(base, pages)]
  | _, .released ranges => ranges
  | _, _ => []

end Cellos.Memory.Pin
