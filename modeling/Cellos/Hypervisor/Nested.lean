import Cellos.Lib

/-!
# Cellos.Hypervisor.Nested

Nested page tables: the ARM Stage-2 table (`memory/stage2.rs`) and the x86 EPT or NPT
table (`memory/ept.rs`).

The two differ in the number of levels, in the bits of an address they index by, in the
limit they check addresses against and in their MMIO holes (`Arch`).  A descriptor is kept
as the host page and what it permits.

`map` checks the range of a call in byte arithmetic on 64-bit words and then installs
the pages one by one.  The product of page count and page size wraps, and on x86 the
limit lies above the addresses the indices can tell apart, so the checks bound what is
installed only for calls that `Sane` describes.
-/

namespace Cellos.Hypervisor

open Lib Option

def pageSize : Nat := 4096

/-- Number of 64-bit words. -/
def wordSize : Nat := 2 ^ 64

inductive Arch
  | arm
  | x86

namespace Arch

/-- Levels of tables below the root. -/
def depth : Arch → Nat
  | .arm => 2
  | .x86 => 3

/-- Bits of a page number that the indices look at. -/
def indexBits : Arch → Nat
  | .arm => 28
  | .x86 => 36

/-- Bits of a host page number that a descriptor holds (`PA_MASK`). -/
def frameBits : Arch → Nat
  | .arm => 36
  | .x86 => 40

/-- `IPA_LIMIT` and `GPA_LIMIT`. -/
def limit : Arch → Nat
  | .arm => 2 ^ 40
  | .x86 => 2 ^ 52

/-- `MMIO_HOLES`. -/
def holes : Arch → List (Nat × Nat)
  | .arm => [(0x08000000, 0x08020000), (0x09000000, 0x09001000), (0x0a000000, 0x0a004000)]
  | .x86 => [(0xd0000000, 0xd0004000), (0xFEC00000, 0xFEC01000)]

/-- The leaf that the indices of an address select. -/
def leafOf (a : Arch) (gpa : Nat) : Nat := gpa / pageSize % 2 ^ a.indexBits

end Arch

/-- A descriptor: a table, or a page of the host. -/
structure Desc where
  page : Nat
  (writable device : Bool)
deriving DecidableEq

def tableDesc (frame : Nat) : Desc := ⟨frame / pageSize, true, false⟩

def leafDesc (a : Arch) (hpa : Nat) (writable device : Bool) : Desc :=
  ⟨hpa / pageSize % 2 ^ a.frameBits, writable, device⟩

inductive MapError
  | overflow | outOfBounds | sasViolation | mmioHole | outOfMemory
deriving DecidableEq

/-- The result of a call, and the pages it has mapped explicitly for a device. -/
structure Response where
  result : Except MapError Unit
  devices : List Nat

/-- `Stage2Table` and `NestedPageTable`. -/
structure NestedTable where
  entries : Radix Desc
  subFrames : List Nat
  (guestRamPa guestRamPages : Nat)

open NestedTable

namespace NestedTable

def new : NestedTable := ⟨fun _ _ => none, [], 0, 0⟩

variable (t : NestedTable) (a : Arch)

/-- Record the run the allocator has found for the guest. -/
def carveGuestRam (pages : Nat) : Option Nat → NestedTable
  | none => t
  | some pa => { t with guestRamPa := pa, guestRamPages := pages }

/-- One page; the interior tables that are missing are taken from `alloc`. -/
def mapSingle (gpa : Nat) (desc : Desc) (alloc : List Nat) : Bool × List Nat × NestedTable :=
  let (ok, taken, entries) := t.entries.map tableDesc a.depth (a.leafOf gpa) desc alloc
  (ok, alloc.drop taken.length, { t with entries, subFrames := t.subFrames ++ taken })

/-- The loop of the maps; yields the pages that were mapped. -/
def mapPages (a : Arch) (writable device : Bool) : Nat → Nat → Nat → List Nat → NestedTable →
    Except MapError Unit × List Nat × NestedTable
  | 0, _, _, _, t => (.ok (), [], t)
  | n + 1, gpa, hpa, alloc, t =>
    match t.mapSingle a gpa (leafDesc a hpa writable device) alloc with
    | (false, _, t) => (.error .outOfMemory, [], t)
    | (true, alloc, t) =>
      let (result, pages, t) := mapPages a writable device n ((gpa + pageSize) % wordSize)
        ((hpa + pageSize) % wordSize) alloc t
      (result, gpa / pageSize :: pages, t)

/-- The ends of the guest range and of the host range. -/
def checkRange (gpa hpa n : Nat) : Except MapError (Nat × Nat) :=
  let span := n * pageSize % wordSize
  if wordSize ≤ gpa + span ∨ wordSize ≤ hpa + span then .error .overflow
  else if a.limit < gpa + span ∨ a.limit < hpa + span then .error .outOfBounds
  else .ok (gpa + span, hpa + span)

def map (gpa hpa n : Nat) (writable : Bool) (alloc : List Nat) : Response × NestedTable :=
  match checkRange a gpa hpa n with
  | .error error => (⟨.error error, []⟩, t)
  | .ok (gpaEnd, hpaEnd) =>
    if ∃ hole ∈ a.holes, gpa < hole.2 ∧ hole.1 < gpaEnd then (⟨.error .mmioHole, []⟩, t)
    else if 0 < t.guestRamPages ∧ (hpa < t.guestRamPa ∨
        (t.guestRamPa + t.guestRamPages * pageSize) % wordSize < hpaEnd) then
      (⟨.error .sasViolation, []⟩, t)
    else
      let (result, _, t) := mapPages a writable false n gpa hpa alloc t
      (⟨result, []⟩, t)

/-- ARM: hardware passthrough, which no hole and no carve restricts. -/
def mapMmioPassthrough (ipa hpa n : Nat) (writable : Bool)
    (alloc : List Nat) : Response × NestedTable :=
  match checkRange a ipa hpa n with
  | .error error => (⟨.error error, []⟩, t)
  | .ok _ =>
    let (result, pages, t) := mapPages a writable true n ipa hpa alloc t
    (⟨result, pages⟩, t)

/-- x86: one frame of an emulated device. -/
def mapDeviceFrame (gpa hpa : Nat) (writable : Bool) (alloc : List Nat) : Response × NestedTable :=
  if a.limit ≤ gpa ∨ a.limit ≤ hpa then (⟨.error .outOfBounds, []⟩, t)
  else
    let (result, pages, t) := mapPages a writable false 1 gpa hpa alloc t
    (⟨result, pages⟩, t)

def unmap (a : Arch) : Nat → Nat → NestedTable → NestedTable
  | 0, _, t => t
  | n + 1, gpa, t =>
    unmap a n ((gpa + pageSize) % wordSize)
      { t with entries := t.entries.unmap a.depth (a.leafOf gpa) }

/-- The software walk. -/
def translate (gpa : Nat) : Option Nat :=
  (t.entries.find a.depth (a.leafOf gpa)).map fun desc => desc.page * pageSize + gpa % pageSize

end NestedTable

/-! ## the machine -/

inductive Op
  | carveGuestRam (pages : Nat) (run : Option Nat)
  | map (gpa hpa n : Nat) (writable : Bool) (alloc : List Nat)
  | mapMmioPassthrough (ipa hpa n : Nat) (writable : Bool) (alloc : List Nat)
  | mapDeviceFrame (gpa hpa : Nat) (writable : Bool) (alloc : List Nat)
  | unmap (gpa n : Nat)

def step (a : Arch) (t : NestedTable) : Op → Option (Response × NestedTable)
  | .carveGuestRam pages run => some (⟨.ok (), []⟩, t.carveGuestRam pages run)
  | .map gpa hpa n writable alloc => some (t.map a gpa hpa n writable alloc)
  | .mapMmioPassthrough ipa hpa n writable alloc =>
    some (t.mapMmioPassthrough a ipa hpa n writable alloc)
  | .mapDeviceFrame gpa hpa writable alloc => some (t.mapDeviceFrame a gpa hpa writable alloc)
  | .unmap gpa n => some (⟨.ok (), []⟩, t.unmap a n gpa)

/-! ## what a call can install -/

variable {a : Arch} {t : NestedTable} {n gpa hpa : Nat} {writable : Bool}
  {alloc : List Nat} {r : Response} {op : Op}

/-- A leaf that is new maps an allowed guest address to the host address it is allowed for. -/
structure Writes (a : Arch) (allowed : Nat → Nat → Prop) (t t' : NestedTable) : Prop where
  ramPa : t'.guestRamPa = t.guestRamPa
  ramPages : t'.guestRamPages = t.guestRamPages
  leaf : ∀ k desc, t'.entries 0 k = some desc → t.entries 0 k = some desc ∨
    ∃ gpa hpa, allowed gpa hpa ∧ k = a.leafOf gpa ∧ desc.page = hpa / pageSize % 2 ^ a.frameBits

namespace Writes

theorem refl (a : Arch) (allowed : Nat → Nat → Prop) (t : NestedTable) : Writes a allowed t t :=
  ⟨rfl, rfl, fun _ _ => .inl⟩

theorem trans (h : Writes a allowed t t') (h' : Writes a allowed t' t'') :
    Writes a allowed t t'' where
  ramPa := h'.ramPa.trans h.ramPa
  ramPages := h'.ramPages.trans h.ramPages
  leaf k desc hdesc := (h'.leaf k desc hdesc).elim (h.leaf k desc) .inr

theorem mono (h : Writes a allowed t t') (hsub : ∀ g h, allowed g h → allowed' g h) :
    Writes a allowed' t t' :=
  { h with leaf := fun k desc hdesc => (h.leaf k desc hdesc).imp_right fun ⟨g, h, hgh, hrest⟩ =>
      ⟨g, h, hsub g h hgh, hrest⟩ }

end Writes

theorem mapSingle_writes
    (h : t.mapSingle a gpa (leafDesc a hpa writable device) alloc = (ok, rest, t')) :
    Writes a (fun g h => ok = true ∧ g = gpa ∧ h = hpa) t t' := by
  unfold mapSingle at h
  generalize hmap : t.entries.map .. = walk at h
  obtain ⟨_, _, entries⟩ := walk
  cases h
  refine ⟨rfl, rfl, fun k desc hdesc => ?_⟩
  change entries 0 k = some desc at hdesc
  rw [Radix.map_leaf hmap] at hdesc
  split at hdesc
  · next hk =>
    cases hdesc
    exact .inr ⟨gpa, hpa, ⟨hk.1, rfl, rfl⟩, hk.2, rfl⟩
  · exact .inl hdesc

/-- The `i`-th page of a range that was mapped. -/
def Ranged (gpa hpa n : Nat) (pages : List Nat) (g h : Nat) : Prop :=
  ∃ i < n, g = gpa + i * pageSize ∧ h = hpa + i * pageSize ∧ g / pageSize ∈ pages

/-- The loop installs pages of the range, if the range does not wrap. -/
theorem mapPages_writes (h : mapPages a writable device n gpa hpa alloc t = (result, pages, t'))
    (hgpa : gpa + n * pageSize < wordSize) (hhpa : hpa + n * pageSize < wordSize) :
    Writes a (Ranged gpa hpa n pages) t t' := by
  induction n generalizing gpa hpa alloc t pages with
  | zero =>
    cases h
    exact .refl ..
  | succ n ih =>
    unfold mapPages at h
    split at h
    · next hsingle =>
      cases h
      exact (mapSingle_writes hsingle).mono (by simp)
    next hsingle =>
    rw [Nat.succ_mul] at hgpa hhpa
    rw [Nat.mod_eq_of_lt (by omega), Nat.mod_eq_of_lt (by omega)] at h
    generalize hrest : mapPages .. = rest at h
    cases h
    refine ((mapSingle_writes hsingle).mono ?_).trans ((ih hrest (by omega) (by omega)).mono ?_)
    · rintro g h ⟨-, rfl, rfl⟩
      exact ⟨0, by simp⟩
    · rintro g h ⟨i, hi, rfl, rfl, hmem⟩
      refine ⟨i + 1, by omega, ?_, ?_, List.mem_cons_of_mem _ hmem⟩ <;> rw [Nat.succ_mul] <;> omega

theorem unmap_writes (t : NestedTable) (n gpa : Nat) : Writes a allowed t (t.unmap a n gpa) := by
  induction n generalizing t gpa with
  | zero => exact .refl ..
  | succ n ih =>
    have hone : Writes a allowed t { t with
        entries := t.entries.unmap a.depth (a.leafOf gpa) } :=
      ⟨rfl, rfl, fun k desc hdesc => .inl (Radix.unmap_leaf hdesc)⟩
    exact hone.trans (ih _ _)

/-! ## calls whose checks bound what they install -/

/-- The guest addresses that the indices tell apart. -/
def Arch.reach (a : Arch) : Nat := pageSize * 2 ^ a.indexBits

/-- The page count of a map does not wrap, its guest range can be told apart, and a carve
is a nonempty run of frames. -/
def Sane (a : Arch) : Op → Prop
  | .carveGuestRam pages run => ∀ pa ∈ run,
    0 < pages ∧ pa % pageSize = 0 ∧ pa + pages * pageSize < wordSize
  | .map gpa _ n _ _ | .mapMmioPassthrough gpa _ n _ _ =>
    n * pageSize < wordSize ∧ gpa + n * pageSize ≤ a.reach
  | .mapDeviceFrame gpa _ _ _ => gpa < a.reach
  | .unmap .. => True

theorem checkRange_eq_ok (h : checkRange a gpa hpa n = .ok ends)
    (hn : n * pageSize < wordSize) : ends = (gpa + n * pageSize, hpa + n * pageSize) ∧
      gpa + n * pageSize < wordSize ∧ hpa + n * pageSize < wordSize ∧
      hpa + n * pageSize ≤ a.limit := by
  unfold checkRange at h
  rw [Nat.mod_eq_of_lt hn] at h
  dsimp only at h
  split at h
  · contradiction
  split at h
  · contradiction
  · cases h
    exact ⟨rfl, by omega, by omega, by omega⟩

/-- A page that `map` may install: outside the holes, and inside the carve. -/
structure Granted (a : Arch) (t : NestedTable) (gpa hpa : Nat) : Prop where
  reach : gpa < a.reach
  hole : ∀ hole ∈ a.holes, hole.2 ≤ gpa ∨ gpa + pageSize ≤ hole.1
  limit : hpa < a.limit
  carve : 0 < t.guestRamPages → t.guestRamPa ≤ hpa ∧
    hpa + pageSize ≤ (t.guestRamPa + t.guestRamPages * pageSize) % wordSize

theorem map_writes (hsane : Sane a (.map gpa hpa n writable alloc)) :
    Writes a (Granted a t) t (t.map a gpa hpa n writable alloc).2 := by
  unfold map
  split
  · exact .refl ..
  next hrange =>
  obtain ⟨⟨⟩, hgpa, hhpa, hlimit⟩ := checkRange_eq_ok hrange hsane.1
  split
  · exact .refl ..
  next hhole =>
  split
  · exact .refl ..
  next hsas =>
  refine (mapPages_writes rfl hgpa hhpa).mono ?_
  rintro g h ⟨i, hi, rfl, rfl, -⟩
  have hspan : i * pageSize + pageSize ≤ n * pageSize := by
    rw [← Nat.succ_mul]
    exact Nat.mul_le_mul_right _ hi
  have hreach := hsane.2
  have hpos : 0 < pageSize := by decide
  refine ⟨by omega, fun hole hmem => ?_, by omega, fun hcarved => ?_⟩
  · have hmiss := not_and.mp (not_exists.mp hhole hole) hmem
    omega
  · omega

/-- **What a call can install**: a page the checks of `map` have passed, or one it was asked to
map for a device. -/
theorem step_writes (hsane : Sane a op) (h : step a t op = some (r, t'))
    (hcarve : ∀ pages run, op ≠ .carveGuestRam pages run) :
    Writes a (fun g h => Granted a t g h ∨ g < a.reach ∧ g / pageSize ∈ r.devices) t t' := by
  cases op with
  | carveGuestRam pages run => exact absurd rfl (hcarve pages run)
  | map =>
    have hwrites := map_writes (t := t) hsane
    rw [some.inj h] at hwrites
    exact hwrites.mono fun _ _ => .inl
  | mapMmioPassthrough gpa =>
    simp only [step, mapMmioPassthrough, some.injEq] at h
    split at h
    · cases h
      exact .refl ..
    next hrange =>
    obtain ⟨-, hgpa, hhpa, -⟩ := checkRange_eq_ok hrange hsane.1
    cases h
    refine (mapPages_writes rfl hgpa hhpa).mono ?_
    rintro g h ⟨i, hi, rfl, rfl, hmem⟩
    have hlt := Nat.mul_lt_mul_of_pos_right hi (show 0 < pageSize by decide)
    exact .inr ⟨Nat.lt_of_lt_of_le (Nat.add_lt_add_left hlt gpa) hsane.2, hmem⟩
  | mapDeviceFrame =>
    simp only [step, mapDeviceFrame, some.injEq] at h
    split at h
    · cases h
      exact .refl ..
    next hlimit =>
    cases h
    have hword : a.limit + pageSize < wordSize := by cases a <;> decide
    refine (mapPages_writes rfl (by omega) (by omega)).mono ?_
    rintro g h ⟨i, hi, rfl, rfl, hmem⟩
    obtain rfl : i = 0 := by omega
    exact .inr ⟨by rwa [Nat.zero_mul], hmem⟩
  | unmap gpa n =>
    cases h
    exact unmap_writes t n gpa

/-! ## guests stay in their memory -/

/-- Every leaf inside a hole was asked for. -/
structure Confined (a : Arch) (rs : List Response) (t : NestedTable) : Prop where
  aligned : t.guestRamPa % pageSize = 0
  ends : t.guestRamPa + t.guestRamPages * pageSize < wordSize
  hole : ∀ k desc, t.entries 0 k = some desc → ∀ hole ∈ a.holes,
    hole.1 ≤ k * pageSize → k * pageSize < hole.2 → ∃ r ∈ rs, k ∈ r.devices

theorem Arch.hole_aligned : ∀ hole ∈ a.holes,
    hole.1 % pageSize = 0 ∧ hole.2 % pageSize = 0 ∧ hole.2 ≤ a.reach := by
  cases a <;> decide

theorem Confined.mono (hc : Confined a rs t) (hsub : rs ⊆ rs') : Confined a rs' t where
  aligned := hc.aligned
  ends := hc.ends
  hole k desc hdesc hole hmem hlo hhi := by
    obtain ⟨r, hr, hk⟩ := hc.hole k desc hdesc hole hmem hlo hhi
    exact ⟨r, hsub hr, hk⟩

theorem confined_step (hc : Confined a rs t) (hsane : Sane a op)
    (h : step a t op = some (r, t')) : Confined a (rs ++ [r]) t' := by
  replace hc := hc.mono (List.subset_append_left rs [r])
  by_cases hcarve : ∃ pages run, op = .carveGuestRam pages run
  · obtain ⟨_, run, rfl⟩ := hcarve
    cases h
    cases run with
    | none => exact hc
    | some pa =>
      obtain ⟨-, haligned, hends⟩ := hsane pa rfl
      exact ⟨haligned, hends, hc.hole⟩
  have hwrites := step_writes hsane h fun pages run heq => hcarve ⟨pages, run, heq⟩
  refine ⟨hwrites.ramPa ▸ hc.aligned, hwrites.ramPa ▸ hwrites.ramPages ▸ hc.ends, ?_⟩
  intro k desc hdesc hole hmem hlo hhi
  rcases hwrites.leaf k desc hdesc with hold | ⟨g, h, hallowed, rfl, -⟩
  · exact hc.hole k desc hold hole hmem hlo hhi
  have hreach : g < a.reach := hallowed.elim (·.reach) (·.1)
  have hleaf : a.leafOf g = g / pageSize := Nat.mod_eq_of_lt (Nat.div_lt_of_lt_mul hreach)
  rw [hleaf] at hlo hhi ⊢
  rcases hallowed with hgranted | ⟨-, hdevice⟩
  · -- the checks keep a page away from a hole, whose bounds are page boundaries
    have hmiss := hgranted.hole hole hmem
    have haligned := Arch.hole_aligned hole hmem
    simp only [pageSize] at *
    omega
  · exact ⟨r, List.mem_append_right _ (List.mem_singleton_self r), hdevice⟩

/-- **Guests cannot reach host memory** while the calls are sane: what `map` installs after a
carve lies inside the carve, and an MMIO address translates only if its page was mapped explicitly
for a device. -/
theorem guest_confined {ops : List Op} {rs : List Response} (hsane : ∀ op ∈ ops, Sane a op)
    (hrun : run (step a) .new ops = some (rs, t)) :
    (∀ gpa hpa n writable alloc, Sane a (.map gpa hpa n writable alloc) → 0 < t.guestRamPages →
      ∀ k desc, (t.map a gpa hpa n writable alloc).2.entries 0 k = some desc →
        t.entries 0 k = some desc ∨ t.guestRamPa ≤ desc.page * pageSize ∧
          (desc.page + 1) * pageSize ≤ t.guestRamPa + t.guestRamPages * pageSize) ∧
    ∀ gpa, (∃ hole ∈ a.holes, hole.1 ≤ gpa ∧ gpa < hole.2) → t.translate a gpa ≠ none →
      ∃ r ∈ rs, gpa / pageSize ∈ r.devices := by
  have hc : Confined a rs t := run_history_of_guarded (fun _ _ _ _ _ => confined_step) hrun
      (guarded_of_forall fun op hop _ => hsane op hop) ⟨rfl, by decide, by simp [new]⟩
  constructor
  · intro gpa hpa n writable alloc hsane hcarved k desc hdesc
    refine ((map_writes hsane).leaf k desc hdesc).imp_right ?_
    rintro ⟨g, h, hgranted, -, hpage⟩
    have hbits : a.limit ≤ pageSize * 2 ^ a.frameBits := by cases a <;> decide
    have hframe := Nat.div_lt_of_lt_mul (Nat.lt_of_lt_of_le hgranted.limit hbits)
    have haligned := hc.aligned
    obtain ⟨hlo, hhi⟩ := hgranted.carve hcarved
    rw [Nat.mod_eq_of_lt hc.ends] at hhi
    rw [hpage, Nat.mod_eq_of_lt hframe]
    simp only [pageSize] at *
    omega
  · rintro gpa ⟨hole, hmem, hlo, hhi⟩ htranslate
    obtain ⟨hpa, htranslate⟩ := ne_none_iff_exists'.mp htranslate
    obtain ⟨desc, hfind, -⟩ := map_eq_some_iff.mp htranslate
    obtain ⟨haligned, -, hreach⟩ := Arch.hole_aligned hole hmem
    have hleaf : a.leafOf gpa = gpa / pageSize :=
      Nat.mod_eq_of_lt (Nat.div_lt_of_lt_mul (Nat.lt_of_lt_of_le hhi hreach))
    rw [hleaf] at hfind
    refine hc.hole _ desc (Radix.find_eq_some hfind) hole hmem ?_ ?_ <;> simp only [pageSize] at * <;>
      omega

/-- A guest with two pages of RAM and its local APIC. -/
def sampleCalls : List Op :=
  [.carveGuestRam 2 (some 0x100000), .map 0 0x100000 2 true [0x1000, 0x2000, 0x3000],
    .mapDeviceFrame 0xFEE00000 0x4000 true [0x5000, 0x6000]]

theorem guest_confined_sample : ∃ rs t, run (step .x86) .new sampleCalls = some (rs, t) ∧
    t.translate .x86 0x1008 = some 0x101008 ∧
    ∀ gpa, (∃ hole ∈ Arch.x86.holes, hole.1 ≤ gpa ∧ gpa < hole.2) → t.translate .x86 gpa ≠ none →
      ∃ r ∈ rs, gpa / pageSize ∈ r.devices := by
  obtain ⟨rs, t, hrun, hpage⟩ : ∃ rs t, run (step .x86) .new sampleCalls = some (rs, t) ∧
      t.translate .x86 0x1008 = some 0x101008 := by
    decide +kernel
  refine ⟨rs, t, hrun, hpage, (guest_confined ?_ hrun).2⟩
  simp [sampleCalls, Sane, pageSize, wordSize, Arch.reach, Arch.indexBits]

/-- A page count that wraps passes every check, and the second page it installs is not the
guest's; an address above the index bits lands in a hole. -/
theorem guest_escapes : (new.carveGuestRam 1 (some 0x100000)).guestRamPages = 1 ∧
    ((new.carveGuestRam 1 (some 0x100000)).map .x86 0 0x100000 (2 ^ 52) true
      [0x1000, 0x2000, 0x3000]).2.entries 0 1 = some ⟨0x101, true, false⟩ ∧
    ((new.carveGuestRam 1 (some 0x100000)).map .x86 (2 ^ 48 + 0xd0000000) 0x100000 1
      true [0x1000, 0x2000, 0x3000]).2.translate .x86 0xd0000000 = some 0x100000 := by
  decide +kernel

end Cellos.Hypervisor
