import Cellos.Lib

/-!
# Cellos.RootStream.Placement

Where the components of a root stream are loaded (`ranges.rs`, `bundle.rs`).

Before a transfer the loader checks its own numbers: `validateStaging` looks at the range the
stream is received into, at the ranges nothing may touch, and at the worst-case window of
each component.  After the transfer `verifyBundle` checks the manifest that came with it:
`validateManifest` looks at where the components say they go.  Neither validator sees what
the other one saw.

All numbers are `u64` in the source; the sums the code checks refuse when they do not fit.
The signature envelope, the payload codec and the hash are parameters of `verifyBundle`.
-/

namespace Cellos.RootStream

open Lib List

inductive Error where
  | outputTooSmall
  | scratchTooSmall
  | truncated
  | trailingData
  | wrongType
  | nonCanonical
  | wrongSchema
  | wrongLane
  | wrongIdentity
  | wrongFreshness
  | unknownKey
  | wrongComponent
  | zeroLength
  | overflow
  | limitExceeded
  | rangeOverlap
  | wrongEntry
  | wrongRegionLength
  | invalidCose
  | wrongAlgorithm
  | wrongKeyId
  | invalidPublicKey
  | invalidSeed
  | signature
  | digestMismatch
  | invalidFrame
  | invalidBlock
  | invalidCrc
  | invalidPadding
  | missingEot
  | invalidStaging
  deriving DecidableEq

def checkedAdd (a b : Nat) : Except Error Nat :=
  if a + b < 2 ^ 64 then .ok (a + b) else .error .overflow

def checkedMul (a b : Nat) : Except Error Nat :=
  if a * b < 2 ^ 64 then .ok (a * b) else .error .overflow

/-! ## ranges -/

/-- The half-open range `[base, end)`. -/
structure PhysicalRange where
  (base end_ : Nat)

open PhysicalRange

namespace PhysicalRange

def new (base length : Nat) : Except Error PhysicalRange := do
  require (length ≠ 0) .zeroLength
  let end_ ← checkedAdd base length
  pure ⟨base, end_⟩

def len (r : PhysicalRange) : Except Error Nat :=
  if r.base < r.end_ then .ok (r.end_ - r.base) else .error .invalidStaging

def contains (r other : PhysicalRange) : Bool :=
  r.base ≤ other.base && other.end_ ≤ r.end_ && other.base < other.end_

def overlaps (r other : PhysicalRange) : Bool := r.base < other.end_ && other.base < r.end_

def containsAddress (r : PhysicalRange) (address : Nat) : Bool :=
  r.base ≤ address && address < r.end_

end PhysicalRange

/-! ## the manifest and its limits -/

abbrev componentCount : Nat := 4

def maxCoseLen : Nat := 549

def xmodemBlockLen : Nat := 1024

inductive ComponentKind where
  | openSbi
  | dtb
  | cellos
  | vifs
  deriving DecidableEq

/-- The discriminant of a kind. -/
def ComponentKind.toNat : ComponentKind → Nat
  | .openSbi => 1
  | .dtb => 2
  | .cellos => 3
  | .vifs => 4

/-- A `[u8; 32]`. -/
abbrev Digest := BitVec 256

structure Component where
  kind : ComponentKind
  (offset length loadAddress : Nat)
  sha256 : Digest

structure Manifest where
  (deviceId authorityId : Digest)
  (bootEpoch requestId : Nat)
  approvedLoaderSha256 : Digest
  (componentRegionLength entryAddress : Nat)
  components : Fin componentCount → Component

structure ExpectedManifest where
  (deviceId authorityId approvedLoaderSha256 : Digest)
  (bootEpoch requestId : Nat)

structure ComponentLimit where
  kind : ComponentKind
  (loadAddress maxLoadEnd maxSize entryAddress : Nat)

structure ManifestLimits where
  (maxCoseLength maxComponentRegionLength : Nat)
  components : Fin componentCount → ComponentLimit

structure StagingLimits where
  (usableDram staging : PhysicalRange)
  (maxTransferBlocks manifestBound : Nat)

/-! ## the manifest's check -/

/-- One turn of the loop over the components: where the region has been read to, and the ranges
placed so far. -/
def checkComponent (m : Manifest) (limits : ManifestLimits)
    (placed : Nat × List PhysicalRange) (i : Fin componentCount) :
    Except Error (Nat × List PhysicalRange) := do
  let c := m.components i
  let limit := limits.components i
  require (c.kind = limit.kind ∧ c.kind.toNat = i + 1) .wrongComponent
  require (c.offset = placed.1 ∧ c.length ≠ 0 ∧ c.length ≤ limit.maxSize ∧
    c.loadAddress = limit.loadAddress) .limitExceeded
  let relativeEnd ← checkedAdd c.offset c.length
  let range ← PhysicalRange.new c.loadAddress c.length
  require (range.end_ ≤ limit.maxLoadEnd) .limitExceeded
  require (∀ prior ∈ placed.2, range.overlaps prior = false) .rangeOverlap
  pure (relativeEnd, placed.2 ++ [range])

def validateManifest (m : Manifest) (expected : ExpectedManifest) (limits : ManifestLimits) :
    Except Error Unit := do
  require (expected.bootEpoch ≠ 0 ∧ expected.requestId ≠ 0 ∧ m.bootEpoch = expected.bootEpoch ∧
    m.requestId = expected.requestId) .wrongFreshness
  require (m.deviceId = expected.deviceId ∧ m.authorityId = expected.authorityId ∧
    m.approvedLoaderSha256 = expected.approvedLoaderSha256) .wrongIdentity
  require (m.componentRegionLength ≠ 0 ∧
    m.componentRegionLength ≤ limits.maxComponentRegionLength) .limitExceeded
  let placed ← (finRange componentCount).foldlM (checkComponent m limits) (0, [])
  require (placed.1 = m.componentRegionLength) .wrongRegionLength
  let entry := (limits.components 0).entryAddress
  require (m.entryAddress = entry ∧
    placed.2.head?.any (fun range => range.containsAddress entry) = true) .wrongEntry

/-! ## the loader's own check -/

/-- One turn of the loop over the forbidden ranges. -/
def checkForbidden (staging : PhysicalRange) (prior : List PhysicalRange) (range : PhysicalRange) :
    Except Error (List PhysicalRange) := do
  let _ ← range.len
  require (staging.overlaps range = false) .rangeOverlap
  require (∀ r ∈ prior, range.overlaps r = false) .rangeOverlap
  pure (prior ++ [range])

/-- The range a component can at most be loaded into. -/
def ComponentLimit.window (limit : ComponentLimit) : PhysicalRange :=
  ⟨limit.loadAddress, limit.maxLoadEnd⟩

/-- One turn of the loop over the worst-case windows. -/
def checkWindow (limits : StagingLimits) (forbidden : List PhysicalRange)
    (manifestLimits : ManifestLimits) (prior : List PhysicalRange) (i : Fin componentCount) :
    Except Error (List PhysicalRange) := do
  let component := manifestLimits.components i
  require (component.kind.toNat = i + 1 ∧ component.maxSize ≠ 0) .invalidStaging
  let window := component.window
  let windowLen ← window.len
  require (component.maxSize ≤ windowLen ∧ limits.usableDram.contains window = true ∧
    (i = 0 → window.containsAddress component.entryAddress = true) ∧
    (i ≠ 0 → component.entryAddress = 0)) .invalidStaging
  require (limits.staging.overlaps window = false) .rangeOverlap
  require (∀ r ∈ prior, window.overlaps r = false) .rangeOverlap
  require (∀ immutable ∈ forbidden, window.overlaps immutable = false) .rangeOverlap
  pure (prior ++ [window])

def validateStaging (limits : StagingLimits) (forbidden : List PhysicalRange)
    (manifestLimits : ManifestLimits) : Except Error Unit := do
  let _ ← limits.usableDram.len
  let stagingLen ← limits.staging.len
  require (limits.staging.base % 4096 = 0 ∧ limits.staging.end_ % 4096 = 0 ∧
    stagingLen % 1024 = 0 ∧ limits.maxTransferBlocks ≠ 0 ∧ limits.manifestBound ≠ 0 ∧
    limits.manifestBound = manifestLimits.maxCoseLength ∧
    manifestLimits.maxComponentRegionLength ≠ 0 ∧
    limits.usableDram.contains limits.staging = true) .invalidStaging
  let capacity ← checkedMul limits.maxTransferBlocks 1024
  let length ← checkedAdd 4 limits.manifestBound
  let logicalMax ← checkedAdd length manifestLimits.maxComponentRegionLength
  require (capacity ≤ stagingLen ∧ logicalMax ≤ capacity) .invalidStaging
  let _ ← forbidden.foldlM (checkForbidden limits.staging) []
  let _ ← (finRange componentCount).foldlM (checkWindow limits forbidden manifestLimits) []
  pure ()

/-! ## the received stream -/

/-- The parts of the verifier that are not about places: the signed envelope, the payload codec
and the hash. -/
structure Verifier where
  verifyCose : List UInt8 → Except Error (List UInt8)
  decodePayload : List UInt8 → Except Error Manifest
  sha256 : List UInt8 → Digest

structure VerifiedBundle where
  manifest : Manifest
  (cose componentRegion : List UInt8)
  logicalLen : Nat

/-- `bytes.get(start..end)`. -/
def slice (bytes : List UInt8) (start stop : Nat) : Option (List UInt8) :=
  if start ≤ stop ∧ stop ≤ bytes.length then some ((bytes.drop start).take (stop - start)) else none

/-- One turn of the loop over the digests. -/
def verifyComponent (v : Verifier) (componentRegion : List UInt8) (component : Component) :
    Except Error Unit := do
  let stop ← checkedAdd component.offset component.length
  let bytes ← demand (slice componentRegion component.offset stop) .wrongRegionLength
  require (v.sha256 bytes = component.sha256) .digestMismatch

def verifyComponents (v : Verifier) (manifest : Manifest) (componentRegion : List UInt8) :
    Except Error Unit := do
  require (componentRegion.length = manifest.componentRegionLength) .wrongRegionLength
  (finRange componentCount).forM fun i =>
    verifyComponent v componentRegion (manifest.components i)

/-- `u32::from_be_bytes`. -/
def fromBeBytes (bytes : List UInt8) : Nat := bytes.foldl (fun n b => n * 256 + b.toNat) 0

def verifyBundle (v : Verifier) (padded : List UInt8) (expected : ExpectedManifest)
    (limits : ManifestLimits) : Except Error VerifiedBundle := do
  require (padded ≠ [] ∧ padded.length % xmodemBlockLen = 0) .invalidPadding
  let lengthPrefix ← demand (slice padded 0 4) .truncated
  let coseLen := fromBeBytes lengthPrefix
  require (coseLen ≠ 0 ∧ coseLen ≤ limits.maxCoseLength) .limitExceeded
  require (coseLen ≤ maxCoseLen) .limitExceeded
  let coseEnd ← checkedAdd 4 coseLen
  let cose ← demand (slice padded 4 coseEnd) .truncated
  let payload ← v.verifyCose cose
  let manifest ← v.decodePayload payload
  validateManifest manifest expected limits
  let logicalLen ← checkedAdd coseEnd manifest.componentRegionLength
  let rounded ← checkedAdd logicalLen (xmodemBlockLen - 1)
  let expectedPadded ← checkedMul (rounded / xmodemBlockLen) xmodemBlockLen
  require (padded.length = expectedPadded) .trailingData
  let componentRegion ← demand (slice padded coseEnd logicalLen) .truncated
  require (∀ byte ∈ padded.drop logicalLen, byte = 0x1a) .invalidPadding
  verifyComponents v manifest componentRegion
  pure ⟨manifest, cose, componentRegion, logicalLen⟩

/-! ## ranges as sets of addresses -/

/-- The addresses of a range. -/
def PhysicalRange.addresses (r : PhysicalRange) : Set Nat := Set.Ico r.base r.end_

variable {r : PhysicalRange} {n : Nat}

theorem PhysicalRange.disjoint_of_overlaps
    (h : r.overlaps other = false) : Disjoint r.addresses other.addresses := by
  unfold overlaps at h
  simp only [Bool.and_eq_false_iff, decide_eq_false_iff_not, not_lt] at h
  unfold addresses
  rw [Set.Ico_disjoint_Ico]
  omega

theorem PhysicalRange.subset_of_contains (h : r.contains other = true) :
    other.addresses ⊆ r.addresses := by
  unfold contains at h
  simp only [Bool.and_eq_true, decide_eq_true_eq] at h
  exact Set.Ico_subset_Ico h.1.1 h.1.2

@[simp] theorem PhysicalRange.containsAddress_iff :
    r.containsAddress address = true ↔ address ∈ r.addresses := by
  simp [containsAddress, addresses]

theorem PhysicalRange.len_eq_ok (h : r.len = .ok n) : n = r.end_ - r.base := by
  unfold len at h
  split at h
  · exact (Except.ok.inj h).symm
  · contradiction

theorem checkedAdd_eq_ok (h : checkedAdd a b = .ok n) : n = a + b := by
  unfold checkedAdd at h
  split at h
  · exact (Except.ok.inj h).symm
  · contradiction

theorem PhysicalRange.new_eq_ok {base length : Nat}
    (h : new base length = .ok r) : r = ⟨base, base + length⟩ := by
  obtain ⟨_, -, h⟩ := bind_eq_ok.mp h
  obtain ⟨_, hend, h⟩ := bind_eq_ok.mp h
  rw [← pure_eq_ok.mp h, checkedAdd_eq_ok hend]

/-! ## what the manifest's check establishes -/

namespace Manifest

variable (m : Manifest)

/-- Where a component is loaded. -/
def loadRange (i : Fin componentCount) : PhysicalRange :=
  ⟨(m.components i).loadAddress, (m.components i).loadAddress + (m.components i).length⟩

/-- The part of the signed region that is a component. -/
def sliceOf (i : Fin componentCount) : Set Nat :=
  Set.Ico (m.components i).offset ((m.components i).offset + (m.components i).length)

end Manifest

/-- The components the loop has gone through lie in their windows and apart, and their slices make
up the region read so far. -/
structure Placed (m : Manifest) (limits : ManifestLimits) (done : List (Fin componentCount))
    (placed : Nat × List PhysicalRange) : Prop where
  ranges : placed.2 = done.map m.loadRange
  window : ∀ i ∈ done, (m.loadRange i).addresses ⊆ (limits.components i).window.addresses
  apart : done.Pairwise fun i j => Disjoint (m.loadRange i).addresses (m.loadRange j).addresses
  covered : ∀ k, k < placed.1 ↔ ∃ i ∈ done, k ∈ m.sliceOf i
  separate : done.Pairwise fun i j => Disjoint (m.sliceOf i) (m.sliceOf j)

variable {m : Manifest}
  {i : Fin componentCount}

theorem placed_step
    (h : Placed m limits done placed) (hturn : checkComponent m limits placed i = .ok placed') :
    Placed m limits (done ++ [i]) placed' := by
  simp only [checkComponent, bind_eq_ok, require_eq_ok, pure_eq_ok] at hturn
  obtain ⟨-, -, -, ⟨hoffset, -, -, hload⟩, _, hend, range, hrange, -, hwindow, -, hapart, rfl⟩ :=
    hturn
  obtain rfl : range = m.loadRange i := new_eq_ok hrange
  obtain rfl := checkedAdd_eq_ok hend
  have hsplit : ∀ k, k < (m.components i).offset + (m.components i).length ↔
      k < placed.1 ∨ k ∈ m.sliceOf i := by
    intro k
    unfold Manifest.sliceOf
    rw [Set.mem_Ico]
    omega
  refine ⟨?_, ?_, ?_, ?_, ?_⟩
  · simp [h.ranges]
  · exact forall_mem_concat h.window (Set.Ico_subset_Ico hload.ge hwindow)
  · refine pairwise_concat h.apart fun j hj => ?_
    refine (disjoint_of_overlaps (hapart (m.loadRange j) ?_)).symm
    rw [h.ranges]
    exact mem_map_of_mem hj
  · intro k
    rw [hsplit, h.covered]
    simp [or_and_right, exists_or]
  · refine pairwise_concat h.separate fun j hj => Set.disjoint_left.mpr fun b hb hbi => ?_
    have hlt : b < placed.1 := (h.covered b).mpr ⟨j, hj, hb⟩
    have hge : placed.1 ≤ b := hoffset ▸ hbi.1
    omega

theorem validateManifest_placed (h : validateManifest m expected limits = .ok ()) :
    ∃ ranges, Placed m limits (finRange componentCount) (m.componentRegionLength, ranges) ∧
      m.entryAddress ∈ (m.loadRange 0).addresses ∧
      m.componentRegionLength ≤ limits.maxComponentRegionLength := by
  simp only [validateManifest, bind_eq_ok, require_eq_ok] at h
  obtain ⟨-, -, -, -, -, hregion, placed, hloop, -, hend, hentry, hcontains⟩ := h
  have hplaced : Placed m limits (finRange componentCount) placed :=
    foldlM_invariant (fun _ _ _ _ => placed_step) hloop
      ⟨rfl, by simp, Pairwise.nil, by simp, Pairwise.nil⟩
  refine ⟨placed.2, hend ▸ hplaced, ?_, hregion.2⟩
  rw [hplaced.ranges] at hcontains
  have hhead : ((finRange componentCount).map m.loadRange).head? = some (m.loadRange 0) := rfl
  rw [hhead, Option.any_some, containsAddress_iff] at hcontains
  rw [hentry]
  exact hcontains

/-! ## what the loader's own check establishes -/

/-- The windows the loop has gone through. -/
def Windows (limits : StagingLimits) (forbidden : List PhysicalRange)
    (manifestLimits : ManifestLimits) (done : List (Fin componentCount)) : Prop :=
  ∀ i ∈ done, (manifestLimits.components i).window.addresses ⊆ limits.usableDram.addresses ∧
    Disjoint limits.staging.addresses (manifestLimits.components i).window.addresses ∧
    ∀ r ∈ forbidden, Disjoint (manifestLimits.components i).window.addresses r.addresses

theorem windows_step
    (h : Windows limits forbidden manifestLimits done)
    (hturn : checkWindow limits forbidden manifestLimits prior i = .ok prior') :
    Windows limits forbidden manifestLimits (done ++ [i]) := by
  simp only [checkWindow, bind_eq_ok, require_eq_ok] at hturn
  obtain ⟨-, -, _, -, -, hcheck, -, hstaging, -, -, -, hforbidden, -⟩ := hturn
  exact forall_mem_concat h ⟨subset_of_contains hcheck.2.1, disjoint_of_overlaps hstaging,
    fun r hr => disjoint_of_overlaps (hforbidden r hr)⟩

theorem validateStaging_windows
    (h : validateStaging limits forbidden manifestLimits = .ok ()) :
    Windows limits forbidden manifestLimits (finRange componentCount) ∧
      4 + manifestLimits.maxCoseLength + manifestLimits.maxComponentRegionLength ≤
        limits.staging.end_ - limits.staging.base := by
  simp only [validateStaging, bind_eq_ok, require_eq_ok] at h
  obtain ⟨_, -, _, hlen, -, hcheck, _, -, _, hlength, _, hlogical, -, hfits, _, -, _, hloop, -⟩ := h
  constructor
  · refine foldlM_invariant (I := fun done _ => Windows limits forbidden manifestLimits done)
      (fun _ _ _ _ => windows_step) hloop ?_
    simp [Windows]
  · rw [len_eq_ok hlen, checkedAdd_eq_ok hlogical, checkedAdd_eq_ok hlength] at hfits
    omega

/-! ## both checks together -/

theorem pairwise_finRange {R : Fin n → Fin n → Prop} (hsymm : ∀ {i j}, R i j → R j i)
    (h : (finRange n).Pairwise R) {i j : Fin n} (hne : i ≠ j) : R i j := by
  have : Std.Symm R := ⟨fun _ _ => hsymm⟩
  exact h.forall (mem_finRange i) (mem_finRange j) hne

/-- What is known of a stream that is accepted. -/
theorem verifyBundle_accepted (h : verifyBundle v padded expected limits = .ok bundle) :
    validateManifest bundle.manifest expected limits = .ok () ∧
      bundle.logicalLen ≤ 4 + limits.maxCoseLength + bundle.manifest.componentRegionLength := by
  simp only [verifyBundle, bind_eq_ok, require_eq_ok, pure_eq_ok] at h
  obtain ⟨-, -, _, -, -, hcose, -, -, _, hcoseEnd, _, -, _, -, manifest, -, _, hmanifest,
    logicalLen, hlogical, _, -, _, -, -, -, _, -, -, -, _, -, rfl⟩ := h
  refine ⟨hmanifest, ?_⟩
  show logicalLen ≤ 4 + limits.maxCoseLength + manifest.componentRegionLength
  rw [checkedAdd_eq_ok hlogical, checkedAdd_eq_ok hcoseEnd]
  omega

/-- **Placement is safe**: when the loader's limits and a manifest both pass, every component is
loaded inside usable memory and apart from the staging range, from the forbidden ranges and from
the other components, the entry address is in the first component, every byte of the signed
region belongs to exactly one component, and an accepted stream with that manifest fits in the
staging range. -/
theorem placement_safe {limits : StagingLimits} {forbidden : List PhysicalRange}
    {manifestLimits : ManifestLimits} {m : Manifest} {expected : ExpectedManifest}
    (hstaging : validateStaging limits forbidden manifestLimits = .ok ())
    (hmanifest : validateManifest m expected manifestLimits = .ok ()) :
    (∀ i, (m.loadRange i).addresses ⊆ limits.usableDram.addresses ∧
      Disjoint (m.loadRange i).addresses limits.staging.addresses ∧
      (∀ r ∈ forbidden, Disjoint (m.loadRange i).addresses r.addresses) ∧
      ∀ j, j ≠ i → Disjoint (m.loadRange i).addresses (m.loadRange j).addresses) ∧
    m.entryAddress ∈ (m.loadRange 0).addresses ∧
    ((∀ k < m.componentRegionLength, ∃! i, k ∈ m.sliceOf i) ∧
      ∀ i, ∀ k ∈ m.sliceOf i, k < m.componentRegionLength) ∧
    (∀ v padded expected bundle, verifyBundle v padded expected manifestLimits = .ok bundle →
      bundle.manifest = m → bundle.logicalLen ≤ limits.staging.end_ - limits.staging.base) := by
  obtain ⟨hwindows, hfits⟩ := validateStaging_windows hstaging
  obtain ⟨ranges, hplaced, hentry, hregion⟩ := validateManifest_placed hmanifest
  refine ⟨fun i => ?_, hentry, ⟨fun k hk => ?_, fun i k hk => ?_⟩, ?_⟩
  · have hi := mem_finRange i
    obtain ⟨hdram, hstage, hforbidden⟩ := hwindows i hi
    have hwindow := hplaced.window i hi
    refine ⟨hwindow.trans hdram, (hstage.mono_right hwindow).symm,
      fun r hr => (hforbidden r hr).mono_left hwindow, fun j hne => ?_⟩
    exact pairwise_finRange (fun h => h.symm) hplaced.apart hne.symm
  · obtain ⟨i, -, hi⟩ := (hplaced.covered k).mp hk
    refine ⟨i, hi, fun j hj => ?_⟩
    by_contra hne
    exact Set.disjoint_left.mp (pairwise_finRange (fun h => h.symm) hplaced.separate hne) hj hi
  · exact (hplaced.covered k).mpr ⟨i, mem_finRange i, hk⟩
  · rintro v padded expected' bundle hbundle rfl
    obtain ⟨-, hlen⟩ := verifyBundle_accepted hbundle
    omega

/-- Four windows of one page each above the staging range. -/
def sampleManifestLimits : ManifestLimits where
  maxCoseLength := 549
  maxComponentRegionLength := 3000
  components := ![⟨.openSbi, 0x8000, 0x9000, 1000, 0x8010⟩, ⟨.dtb, 0x9000, 0xa000, 1000, 0⟩,
    ⟨.cellos, 0xa000, 0xb000, 1000, 0⟩, ⟨.vifs, 0xb000, 0xc000, 1000, 0⟩]

def sampleStagingLimits : StagingLimits where
  usableDram := ⟨0x4000, 0x10000⟩
  staging := ⟨0x4000, 0x6000⟩
  maxTransferBlocks := 8
  manifestBound := 549

def sampleExpected : ExpectedManifest := ⟨1, 2, 3, 4, 5⟩

def sampleManifest : Manifest where
  deviceId := 1
  authorityId := 2
  bootEpoch := 4
  requestId := 5
  approvedLoaderSha256 := 3
  componentRegionLength := 1000
  entryAddress := 0x8010
  components := ![⟨.openSbi, 0, 400, 0x8000, 0⟩, ⟨.dtb, 400, 100, 0x9000, 0⟩,
    ⟨.cellos, 500, 300, 0xa000, 0⟩, ⟨.vifs, 800, 200, 0xb000, 0⟩]

theorem placement_safe_sample :
    (∀ i, (sampleManifest.loadRange i).addresses ⊆ (PhysicalRange.mk 0x4000 0x10000).addresses ∧
      Disjoint (sampleManifest.loadRange i).addresses (PhysicalRange.mk 0x6000 0x8000).addresses ∧
      ∀ j, j ≠ i → Disjoint (sampleManifest.loadRange i).addresses
        (sampleManifest.loadRange j).addresses) ∧
    sampleManifest.entryAddress ∈ (sampleManifest.loadRange 0).addresses ∧
    ∃! i, 450 ∈ sampleManifest.sliceOf i := by
  have hstaging : validateStaging sampleStagingLimits [⟨0x6000, 0x8000⟩] sampleManifestLimits =
      .ok () := by
    decide +kernel
  have hmanifest : validateManifest sampleManifest sampleExpected sampleManifestLimits =
      .ok () := by
    decide +kernel
  obtain ⟨hapart, hentry, ⟨hcovered, -⟩, -⟩ := placement_safe hstaging hmanifest
  refine ⟨fun i => ?_, hentry, hcovered 450 (by decide)⟩
  obtain ⟨hdram, -, hforbidden, hothers⟩ := hapart i
  exact ⟨hdram, hforbidden _ (mem_singleton_self _), hothers⟩

end Cellos.RootStream
