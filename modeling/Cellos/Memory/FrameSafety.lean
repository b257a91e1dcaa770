import Cellos.Memory.Frame

/-!
# Cellos.Memory.FrameSafety

What holds in every history of the frame allocator.

`Accounted` is the invariant: the counter is the number of set bits, and the
next-fit cursor is in bounds.  `Outcome` says what one call can do; from it
follow that the invariant holds along every run, and that a frame that was
handed out stays marked until an address in it is freed.

Guest memory is taken by a search over indices that knows nothing of the ranges:
`guestRun_iff_noLeadingHole` says exactly when the frames it answers are
physically consecutive.
-/

namespace Cellos.Memory.Frame

open Lib FrameAllocator List Option

variable {a a' : FrameAllocator} {op : Op} {r : Response} {n : Nat} {out : Option Nat} {start : Nat}
  {addr : Nat} {base : Nat}

/-! ## accounting -/

/-- The counter equals the number of set bits, and the cursor is in bounds. -/
structure Accounted (a : FrameAllocator) : Prop where
  counted : a.usedFrames = countSet (bit a.bitmap) a.layout.totalFrames
  cursor : a.lastAllocIndex ≤ a.layout.totalFrames

theorem FrameAllocator.Claims.accounted (hc : Claims a a' start n)
    (ha : Accounted a) (hlast : a'.lastAllocIndex ≤ a.layout.totalFrames) : Accounted a' := by
  constructor
  · rw [hc.used, ha.counted, hc.layout]
    exact (countSet_setRange hc.inside (fun j => hc.free.not_busy) hc.bits).symm
  · rw [hc.layout]
    exact hlast

theorem FrameAllocator.Frees.accounted (hf : Frees a a' frame) (ha : Accounted a) :
    Accounted a' := by
  cases hf.change with
  | inl heq =>
    rw [heq]
    exact ha
  | inr hchange =>
    obtain ⟨idx, hidx, hset, hbits, hused⟩ := hchange
    have hcount := countSet_clear (Layout.indexOfAddr_lt hidx) hset hbits
    have hcounted := ha.counted
    have hcursor := ha.cursor
    constructor
    · rw [hf.layout]
      omega
    · rw [hf.layout, hf.last]
      exact hcursor

/-- The number of frames a call asks for. -/
def Op.frames : Op → Nat
  | .allocateFrame => 1
  | .allocateContiguous n => n
  | .allocateContiguousAligned n _ => n
  | .allocateGuestRam n => n
  | .deallocateFrame _ => 0

/-- The frame addresses a call hands out. -/
def handedOut (op : Op) : Response → List Nat
  | .address (some base) => (List.range op.frames).map fun i => base + i * pageSize
  | _ => []

/-- The call is one of the allocations that stay inside one range. -/
def Op.WithinRange (op : Op) : Prop := ∀ n, op ≠ .allocateGuestRam n

/-- What one call can do. -/
inductive Outcome (a a' : FrameAllocator) : Op → Response → Prop
  /-- An allocation that fails changes nothing. -/
  | failed {op : Op} (same : a' = a) : Outcome a a' op (.address none)
  /-- An allocation takes free frames; inside one range their addresses are consecutive. -/
  | claimed {op : Op} {start base : Nat} (claims : Claims a a' start op.frames)
      (base_eq : a.layout.frameIndexToAddr start = some base)
      (cursor : Accounted a → a'.lastAllocIndex ≤ a.layout.totalFrames)
      (consecutive : op.WithinRange →
        ∀ i < op.frames, a.layout.frameIndexToAddr (start + i) = some (base + i * pageSize)) :
      Outcome a a' op (.address (some base))
  | freed {frame : Nat} {w : Option FreeWarning} (frees : Frees a a' frame) :
      Outcome a a' (.deallocateFrame frame) (.freed w)

theorem FrameAllocator.Fits.consecutive {l : Layout} {range : ManagedRange} (hr : range ∈ l.ranges)
    (h : Fits range start n) (hbase : l.frameIndexToAddr start = some base) :
    ∀ i < n, l.frameIndexToAddr (start + i) = some (base + i * pageSize) := by
  rw [Layout.consecutive_iff_not_crossesHole (h.le_totalFrames hr) hbase]
  intro hcross
  obtain ⟨r₁, -, r₂, hr₂, -, hlo, hhi, -⟩ := hcross
  have hpos := l.nonempty r₂ hr₂
  have hfirst : r₂.HoldsIndex r₂.indexBase := by
    unfold ManagedRange.HoldsIndex ManagedRange.endIndex
    omega
  have hin : range.HoldsIndex r₂.indexBase := by
    unfold Fits at h
    unfold ManagedRange.HoldsIndex
    omega
  have heq := l.indexed.holdsIndex_unique hr hr₂ hin hfirst
  rw [← heq] at hlo
  have := h.1
  omega

theorem allocateFrame_outcome (ha : Accounted a) (hframes : op.frames = 1)
    (h : a.allocateFrame = some (out, a')) : Outcome a a' op (.address out) := by
  cases a.allocateFrame_spec ha.cursor with
  | inl hfull =>
    cases hfull.1.symm.trans h
    exact .failed rfl
  | inr htaken =>
    obtain ⟨idx, addr, b, hb, hclaims, haddr, hlast⟩ := htaken
    cases hb.symm.trans h
    have hin := hclaims.inside
    refine .claimed (hframes ▸ hclaims) haddr (fun _ => by omega) fun _ i hi => ?_
    obtain rfl : i = 0 := by omega
    simpa using haddr

theorem allocateWithin_outcome (hframes : op.frames = n)
    (h : a.allocateWithin n accept a.layout.ranges = some (out, a')) :
    Outcome a a' op (.address out) := by
  cases allocateWithin_cases (fun r hr => hr) h with
  | inl hfull =>
    obtain ⟨rfl, rfl, -⟩ := hfull
    exact .failed rfl
  | inr htaken =>
    obtain ⟨_, hr, _, _, hfits, -, rfl, hclaims, haddr, hlast⟩ := htaken
    subst hframes
    exact .claimed hclaims haddr (fun ha => hlast ▸ ha.cursor) fun _ => hfits.consecutive hr haddr

theorem allocateGuestRam_outcome (h : a.allocateGuestRam n = some (out, a')) :
    Outcome a a' (.allocateGuestRam n) (.address out) := by
  cases a.allocateGuestRam_spec n with
  | inl hfull =>
    cases hfull.1.symm.trans h
    exact .failed rfl
  | inr htaken =>
    obtain ⟨_, addr, b, hb, hclaims, -, haddr, hlast⟩ := htaken
    cases hb.symm.trans h
    exact .claimed hclaims haddr (fun ha => hlast ▸ ha.cursor) fun hw => absurd rfl (hw n)

theorem address_of_map (h : x.map (Prod.map .address id) = some (r, a')) :
    ∃ out, x = some (out, a') ∧ r = .address out := by
  obtain ⟨⟨out, b⟩, hx, heq⟩ := map_eq_some_iff.mp h
  cases heq
  exact ⟨out, hx, rfl⟩

/-- **What one call can do**, from an accounted state. -/
theorem step_outcome (ha : Accounted a) (h : step a op = some (r, a')) : Outcome a a' op r := by
  cases op with
  | allocateFrame =>
    obtain ⟨_, hout, rfl⟩ := address_of_map h
    exact allocateFrame_outcome ha rfl hout
  | allocateContiguous n =>
    obtain ⟨_, hout, rfl⟩ := address_of_map h
    unfold allocateContiguous at hout
    split at hout
    · next hn =>
      have hframes : (Op.allocateContiguous n).frames = 1 := hn
      exact allocateFrame_outcome ha hframes hout
    · exact allocateWithin_outcome rfl hout
  | allocateContiguousAligned =>
    obtain ⟨_, hout, rfl⟩ := address_of_map h
    exact allocateWithin_outcome rfl hout
  | allocateGuestRam =>
    obtain ⟨_, hout, rfl⟩ := address_of_map h
    exact allocateGuestRam_outcome hout
  | deallocateFrame frame =>
    obtain ⟨w, b, hb, hfrees⟩ := a.deallocateFrame_spec frame
    obtain ⟨rfl, rfl⟩ := by simpa [step, hb] using h
    exact .freed hfrees

theorem Outcome.layout (h : Outcome a a' op r) : a'.layout = a.layout := by
  cases h with
  | failed same => rw [same]
  | claimed claims => exact claims.layout
  | freed frees => exact frees.layout

theorem Outcome.accounted (h : Outcome a a' op r) (ha : Accounted a) : Accounted a' := by
  cases h with
  | failed same =>
    rw [same]
    exact ha
  | claimed claims _ cursor => exact claims.accounted ha (cursor ha)
  | freed frees => exact frees.accounted ha

/-! ## histories -/

/-- The states of a history: accounted, over the boot layout. -/
structure Valid (plan : ManagedPlan) (a : FrameAllocator) : Prop where
  layout : a.layout = plan.toLayout
  accounted : Accounted a

theorem newFromMap_valid (plan : ManagedPlan) :
    ∃ boot, newFromMap plan = some boot ∧ Valid plan boot := by
  obtain ⟨boot, hboot, hclaims, hlast⟩ := newFromMap_spec plan
  have hzero : Accounted (zeroed plan) := by
    refine ⟨?_, Nat.zero_le _⟩
    have hnone : countSet (bit (zeroed plan).bitmap) (zeroed plan).layout.totalFrames = 0 := by
      simp [countSet, bit_zeroed]
    rw [hnone]
    rfl
  refine ⟨boot, hboot, hclaims.layout, hclaims.accounted hzero ?_⟩
  rw [hlast]
  exact Nat.zero_le _

theorem Valid.of_step (hv : Valid plan a) (h : step a op = some (r, a')) : Valid plan a' := by
  have hout := step_outcome hv.accounted h
  exact ⟨hout.layout.trans hv.layout, hout.accounted hv.accounted⟩

theorem Valid.of_run (hv : Valid plan a) (h : run step a ops = some (rs, a')) : Valid plan a' :=
  run_invariant (fun _ _ _ _ hs => hs.of_step) h hv

/-- The call is not an aligned request for zero frames, the one that can run past
the last range. -/
def Op.Nonzero (op : Op) : Prop := ∀ align, op ≠ .allocateContiguousAligned 0 align

/-- No other call panics. -/
theorem step_returns (ha : Accounted a) (hop : op.Nonzero) : ∃ r a', step a op = some (r, a') := by
  have haddress {x : Option (Option Nat × FrameAllocator)} (hx : ∃ out, x = some out) :
      ∃ r a', x.map (Prod.map Response.address id) = some (r, a') := by
    obtain ⟨⟨out, b⟩, rfl⟩ := hx
    exact ⟨.address out, b, rfl⟩
  have hframe : ∃ out, a.allocateFrame = some out := by
    cases a.allocateFrame_spec ha.cursor with
    | inl hfull => exact ⟨_, hfull.1⟩
    | inr htaken =>
      obtain ⟨_, _, _, hb, -⟩ := htaken
      exact ⟨_, hb⟩
  cases op with
  | allocateFrame => exact haddress hframe
  | allocateContiguous n =>
    apply haddress
    unfold allocateContiguous
    split_ifs with hn
    · exact hframe
    refine allocateWithin_returns (fun r hr => hr) (fun _ _ _ _ => ⟨true, rfl⟩) ?_
    intro range hr s hfits hfound
    by_cases hzero : n = 0
    · -- zero frames are found at the first start of the first range
      subst hzero
      cases hfound
      have hpos := a.layout.nonempty range hr
      have hholds : range.HoldsIndex range.indexBase := by
        unfold ManagedRange.HoldsIndex ManagedRange.endIndex
        omega
      exact ⟨_, Layout.frameIndexToAddr_eq hr hholds⟩
    · exact hfits.exists_addr hzero hr
  | allocateContiguousAligned n align =>
    have hn : n ≠ 0 := by
      intro hzero
      exact hop align (by rw [hzero])
    apply haddress
    refine allocateWithin_returns (fun r hr => hr) (fun range hr s hfits => ?_)
      fun range hr s hfits _ => hfits.exists_addr hn hr
    obtain ⟨addr, haddr⟩ := hfits.exists_addr hn hr
    exact ⟨addr % align == 0, by rw [haddr]; rfl⟩
  | allocateGuestRam n =>
    apply haddress
    cases a.allocateGuestRam_spec n with
    | inl hfull => exact ⟨_, hfull.1⟩
    | inr htaken =>
      obtain ⟨_, _, _, hb, -⟩ := htaken
      exact ⟨_, hb⟩
  | deallocateFrame frame =>
    obtain ⟨w, b, hb, -⟩ := a.deallocateFrame_spec frame
    exact ⟨.freed w, b, by simp [step, hb]⟩

/-- The frame of the address is marked. -/
def Used (a : FrameAllocator) (addr : Nat) : Prop :=
  ∃ idx, a.layout.indexOfAddr addr = some idx ∧ bit a.bitmap idx = true

/-- The addresses of a handed-out run, with their indices. -/
theorem Outcome.handedOut_index (h : Outcome a a' op r) (hop : op.WithinRange)
    (hmem : addr ∈ handedOut op r) :
    ∃ idx, a.layout.frameIndexToAddr idx = some addr ∧ bit a.bitmap idx = false ∧
      bit a'.bitmap idx = true := by
  cases h with
  | failed | freed => simp [handedOut] at hmem
  | @claimed _ start _ claims _ _ consecutive =>
    obtain ⟨i, hi, rfl⟩ := mem_map.mp hmem
    have hlt := mem_range.mp hi
    refine ⟨start + i, consecutive hop i hlt, claims.free i hlt, ?_⟩
    simp [claims.bits, hlt]

theorem Outcome.used_of_handedOut (h : Outcome a a' op r) (hop : op.WithinRange)
    (hmem : addr ∈ handedOut op r) : ¬Used a addr ∧ Used a' addr := by
  obtain ⟨idx, haddr, hfree, hset⟩ := h.handedOut_index hop hmem
  have hidx := Layout.indexOfAddr_frameIndexToAddr haddr
  constructor
  · intro hused
    obtain ⟨idx', hidx', hset'⟩ := hused
    obtain rfl : idx = idx' := by simpa [hidx] using hidx'
    rw [hfree] at hset'
    contradiction
  · exact ⟨idx, by rw [h.layout, hidx], hset⟩

/-- Only a release of an address in its page unmarks a frame. -/
theorem Outcome.used_or_freed (h : Outcome a a' op r) (hused : Used a addr) :
    Used a' addr ∨ ∃ frame, op = .deallocateFrame frame ∧ frame / pageSize = addr / pageSize := by
  obtain ⟨idx, hidx, hset⟩ := hused
  have hlayout := h.layout
  cases h with
  | failed same =>
    rw [same]
    exact .inl ⟨idx, hidx, hset⟩
  | claimed claims => exact .inl ⟨idx, by rw [hlayout, hidx], by simp [claims.bits, hset]⟩
  | @freed frame w frees =>
    cases frees.change with
    | inl same =>
      rw [same]
      exact .inl ⟨idx, hidx, hset⟩
    | inr hchange =>
      obtain ⟨idx', hidx', -, hbits, -⟩ := hchange
      by_cases heq : idx = idx'
      · subst heq
        exact .inr ⟨frame, rfl, Layout.div_eq_of_indexOfAddr_eq hidx' hidx⟩
      · exact .inl ⟨idx, by rw [hlayout, hidx], by simp [hbits, heq, hset]⟩

/-- The call at position `i` of a history handed out the address. -/
def HandsOut (ops : List Op) (rs : List Response) (i addr : Nat) : Prop :=
  ∃ op r, ops[i]? = some op ∧ rs[i]? = some r ∧ addr ∈ handedOut op r

/-- The call at position `k` of a history is a release of the address's frame. -/
def FreedAt (ops : List Op) (k addr : Nat) : Prop :=
  ∃ frame, ops[k]? = some (.deallocateFrame frame) ∧ frame / pageSize = addr / pageSize

section Histories

/-- A marked frame is handed out only after a release. -/
theorem freed_before_handedOut (hv : Valid plan a) (hops : ∀ op ∈ ops, op.WithinRange)
    (h : run step a ops = some (rs, a')) (hused : Used a addr)
    (hj : HandsOut ops rs j addr) : ∃ k < j, FreedAt ops k addr := by
  induction ops generalizing a rs j with
  | nil =>
    obtain ⟨_, _, hop, -⟩ := hj
    simp at hop
  | cons op _ ih =>
    obtain ⟨r, _, _, hstep, hrun, rfl⟩ := run_cons_eq_some.mp h
    have hout := step_outcome hv.accounted hstep
    obtain ⟨op', r', hop', hr', hmem⟩ := hj
    cases j with
    | zero =>
      obtain ⟨rfl, rfl⟩ := by simpa using And.intro hop' hr'
      have hfree := (hout.used_of_handedOut (hops op mem_cons_self) hmem).1
      exact absurd hused hfree
    | succ j =>
      cases hout.used_or_freed hused with
      | inr hfreed =>
        obtain ⟨frame, rfl, hpage⟩ := hfreed
        exact ⟨0, Nat.succ_pos j, frame, rfl, hpage⟩
      | inl hused =>
        obtain ⟨k, hk, hfreed⟩ := ih (hv.of_step hstep)
          (fun op hop => hops op (mem_cons_of_mem _ hop)) hrun hused
          ⟨op', r', by simpa using hop', by simpa using hr', hmem⟩
        exact ⟨k + 1, Nat.succ_lt_succ hk, by simpa [FreedAt] using hfreed⟩

/-- Between two calls that hand out one address lies a release of its frame. -/
theorem freed_between_handedOut (hv : Valid plan a) (hops : ∀ op ∈ ops, op.WithinRange)
    (h : run step a ops = some (rs, a')) (hij : i < j)
    (hi : HandsOut ops rs i addr) (hj : HandsOut ops rs j addr) :
    ∃ k, i < k ∧ k < j ∧ FreedAt ops k addr := by
  obtain ⟨op, r, hop, hr, hmem⟩ := hi
  obtain ⟨op', s, s', hop', hbefore, hstep, hafter⟩ := run_get h hr
  obtain rfl : op = op' := Option.some.inj (hop.symm.trans hop')
  have hvs := hv.of_run hbefore
  have hused := ((step_outcome hvs.accounted hstep).used_of_handedOut
    (hops op (mem_of_getElem? hop)) hmem).2
  obtain ⟨j, rfl⟩ := Nat.exists_eq_add_of_lt hij
  have hj' : HandsOut (ops.drop (i + 1)) (rs.drop (i + 1)) j addr := by
    simpa [HandsOut, Nat.add_right_comm] using hj
  obtain ⟨k, hk, hfreed⟩ := freed_before_handedOut (hvs.of_step hstep)
    (fun op hop => hops op (mem_of_mem_drop hop)) hafter hused hj'
  exact ⟨i + 1 + k, by omega, by omega, by simpa [FreedAt] using hfreed⟩

/-- An address an allocation answers, or hands out, is the address of a frame. -/
theorem Outcome.frame_of_address (h : Outcome a a' op (.address (some base)))
    (hop : op.WithinRange) (haddr : addr = base ∨ addr ∈ handedOut op (.address (some base))) :
    ∃ idx, a.layout.frameIndexToAddr idx = some addr := by
  cases haddr with
  | inl hbase =>
    cases h with
    | claimed _ base_eq => exact ⟨_, by rw [hbase, base_eq]⟩
  | inr hmem =>
    obtain ⟨idx, hidx, -⟩ := h.handedOut_index hop hmem
    exact ⟨idx, hidx⟩

theorem allocateFrame_fails_iff (ha : Accounted a) :
    (∃ a', step a .allocateFrame = some (.address none, a')) ↔
      ∀ idx < a.layout.totalFrames, bit a.bitmap idx = true := by
  cases a.allocateFrame_spec ha.cursor with
  | inl hfull =>
    constructor
    · intro _
      exact hfull.2
    · intro _
      exact ⟨a, by simp [step, hfull.1]⟩
  | inr htaken =>
    obtain ⟨idx, _, _, hb, hclaims, -⟩ := htaken
    have hfree := hclaims.free 0 Nat.one_pos
    have hin := hclaims.inside
    constructor
    · intro hfail
      simp [step, hb] at hfail
    · intro hall
      rw [Nat.add_zero, hall idx (by omega)] at hfree
      contradiction

end Histories

/-- **Frames are accounted for and exclusive**: every history of single, contiguous and aligned
allocations and of releases returns, on any plan, unless it asks for zero aligned frames.
Afterwards the counter equals the number of set bits; every address handed out is page-aligned
and managed; between two calls that handed out one frame lies a release of that frame; and a
single-frame allocation fails exactly when every managed frame is used. -/
theorem frames_accounted_and_exclusive (plan : ManagedPlan) (ops : List Op)
    (hops : ∀ op ∈ ops, op.WithinRange) : ∃ boot, newFromMap plan = some boot ∧
      ((∀ op ∈ ops, op.Nonzero) → ∃ rs a, run step boot ops = some (rs, a)) ∧
      ∀ (rs : List Response) (a : FrameAllocator), run step boot ops = some (rs, a) →
        a.usedFrames = countSet (bit a.bitmap) plan.totalFrames ∧
        (∀ (i : Nat) (op : Op) (base addr : Nat), ops[i]? = some op → rs[i]? = some (.address (some base)) →
          (addr = base ∨ addr ∈ handedOut op (.address (some base))) →
          pageSize ∣ addr ∧ plan.Managed addr) ∧
        (∀ i j addr, i < j → HandsOut ops rs i addr → HandsOut ops rs j addr →
          ∃ k, i < k ∧ k < j ∧ FreedAt ops k addr) ∧
        ((∃ a', step a .allocateFrame = some (.address none, a')) ↔
          ∀ idx < plan.totalFrames, bit a.bitmap idx = true) := by
  obtain ⟨boot, hboot, hv⟩ := newFromMap_valid plan
  refine ⟨boot, hboot, fun hnonzero => ?_, fun rs a hrun => ⟨?_, ?_, ?_, ?_⟩⟩
  · obtain ⟨rs, a, hrun, -⟩ := run_total (P := Valid plan) (fun op hop s hs => by
      obtain ⟨r, s', hstep⟩ := step_returns hs.accounted (hnonzero op hop)
      exact ⟨r, s', hstep, hs.of_step hstep⟩) hv
    exact ⟨rs, a, hrun⟩
  · have hva := hv.of_run hrun
    rw [hva.accounted.counted, hva.layout]
  · intro i op base addr hop hr haddr
    obtain ⟨op', s, s', hop', hbefore, hstep, -⟩ := run_get hrun hr
    obtain rfl : op = op' := Option.some.inj (hop.symm.trans hop')
    have hvs := hv.of_run hbefore
    obtain ⟨_, hidx⟩ := (step_outcome hvs.accounted hstep).frame_of_address
      (hops op (mem_of_getElem? hop)) haddr
    rw [hvs.layout] at hidx
    exact ⟨Layout.pageSize_dvd_of_frameIndexToAddr hidx, Layout.managed_of_frameIndexToAddr hidx⟩
  · intro i j addr hij hi hj
    exact freed_between_handedOut hv hops hrun hij hi hj
  · have hva := hv.of_run hrun
    rw [allocateFrame_fails_iff hva.accounted, hva.layout]

/-- A map with a hole: sixteen frames at `0x1000` and eight at `0x40000`. -/
def twoBanks : ManagedPlan := Layout.plan
    { ranges := [⟨0x1000, 16, 0⟩, ⟨0x40000, 8, 16⟩]
      totalFrames := 24
      aligned := by decide
      nonempty := by decide
      fits := by decide
      disjoint := by decide
      indexed := by decide
      total := by decide }
    (by decide) (by decide)

/-- One frame, a run of two, the first frame freed twice, and taken again aligned. -/
def reuseHistory : List Op :=
  [.allocateFrame, .allocateContiguous 2, .deallocateFrame 0x2abc, .deallocateFrame 0x2000,
    .allocateContiguousAligned 1 0x2000]

/-- The frame at `0x2000` is handed out twice, and was freed in between. -/
theorem frames_accounted_and_exclusive_reuse :
    ∃ boot rs a, newFromMap twoBanks = some boot ∧ run step boot reuseHistory = some (rs, a) ∧
      HandsOut reuseHistory rs 0 0x2000 ∧ HandsOut reuseHistory rs 4 0x2000 ∧
      a.usedFrames = countSet (bit a.bitmap) 24 ∧
      ∃ k, 0 < k ∧ k < 4 ∧ FreedAt reuseHistory k 0x2000 := by
  have hops : ∀ op ∈ reuseHistory, op.WithinRange := by simp [reuseHistory, Op.WithinRange]
  obtain ⟨boot, hboot, hreturns, hspec⟩ := frames_accounted_and_exclusive twoBanks reuseHistory hops
  obtain ⟨rs, a, hrun⟩ := hreturns (by simp [reuseHistory, Op.Nonzero])
  have hcheck : ((newFromMap twoBanks).any fun boot => (run step boot reuseHistory).any fun out =>
      out.1[0]? == some (.address (some 0x2000)) && out.1[4]? == some (.address (some 0x2000))) =
      true := by decide +kernel
  simp only [hboot, hrun, any_some, Bool.and_eq_true, beq_iff_eq] at hcheck
  have hfirst : HandsOut reuseHistory rs 0 0x2000 :=
    ⟨.allocateFrame, .address (some 0x2000), rfl, hcheck.1, by decide⟩
  have hagain : HandsOut reuseHistory rs 4 0x2000 :=
    ⟨.allocateContiguousAligned 1 0x2000, .address (some 0x2000), rfl, hcheck.2, by decide⟩
  obtain ⟨hcount, -, hexclusive, -⟩ := hspec rs a hrun
  exact ⟨boot, rs, a, hboot, hrun, hfirst, hagain, hcount,
    hexclusive 0 4 0x2000 (by decide) hfirst hagain⟩

/-! ## contiguous runs -/

/-- The `n` frames from `start` on are free and lie in one managed range; the first has the
address `addr`, which is aligned. -/
structure FreeRun (a : FrameAllocator) (n : Nat) (aligned : Nat → Prop) (start addr : Nat) :
    Prop where
  range : ∃ r ∈ a.layout.ranges, Fits r start n
  free : Window (bit a.bitmap) start n
  address : a.layout.frameIndexToAddr start = some addr
  aligned : aligned addr

/-- A contiguous allocation succeeds when there is a run, marks the run whose address it answers,
and changes nothing otherwise. -/
structure Serves (a a' : FrameAllocator) (n : Nat) (aligned : Nat → Prop) (out : Option Nat) :
    Prop where
  succeeds : out.isSome = true ↔ ∃ start addr, FreeRun a n aligned start addr
  marks : ∀ addr, out = some addr → ∃ start, FreeRun a n aligned start addr ∧ Claims a a' start n
  fails : out = none → a' = a

theorem allocateWithin_serves (hn : n ≠ 0)
    (haccept : ∀ start addr, a.layout.frameIndexToAddr start = some addr →
      ∃ b, accept start = some b ∧ (b = true ↔ aligned addr)) :
    ∃ out a', a.allocateWithin n accept a.layout.ranges = some (out, a') ∧
      Serves a a' n aligned out := by
  obtain ⟨⟨out, a'⟩, hout⟩ := allocateWithin_returns (fun r hr => hr) (fun r hr s hfits => by
      obtain ⟨addr, haddr⟩ := hfits.exists_addr hn hr
      exact (haccept s addr haddr).imp fun _ => And.left)
    fun r hr s hfits _ => hfits.exists_addr hn hr
  refine ⟨out, a', hout, ?_⟩
  obtain ⟨rfl, rfl, hnone⟩ | ⟨r, hr, start, addr, hfits, hstart, rfl, hclaims, haddr, -⟩ :=
    allocateWithin_cases (fun r hr => hr) hout
  · refine ⟨⟨fun h => (Bool.false_ne_true h).elim, ?_⟩, by simp, fun _ => rfl⟩
    rintro ⟨start, addr, ⟨r, hr, hfits⟩, hfree, haddr, haligned⟩
    obtain ⟨b, hb, hiff⟩ := haccept start addr haddr
    exact absurd hfree (hnone r hr start hfits (hb.trans (congrArg some (hiff.mpr haligned))))
  obtain ⟨b, hb, hiff⟩ := haccept start addr haddr
  obtain rfl := some.inj (hb.symm.trans hstart)
  have hrun : FreeRun a n aligned start addr := ⟨⟨r, hr, hfits⟩, hclaims.free, haddr, hiff.mp rfl⟩
  exact ⟨⟨fun _ => ⟨start, addr, hrun⟩, fun _ => rfl⟩,
    fun _ h => some.inj h ▸ ⟨start, hrun, hclaims⟩, by simp⟩

/-- **Contiguous allocation is complete**: for two frames and more it finds a run inside one
managed range whenever there is one, aligned where that is asked for. -/
theorem contiguous_serves (a : FrameAllocator) {n : Nat} (hn : 2 ≤ n) (align : Nat) :
    (∃ out a', a.allocateContiguous n = some (out, a') ∧ Serves a a' n (fun _ => True) out) ∧
    ∃ out a', a.allocateContiguousAligned n align = some (out, a') ∧
      Serves a a' n (align ∣ ·) out := by
  constructor
  · rw [allocateContiguous, if_neg (by omega)]
    exact allocateWithin_serves (by omega) fun _ _ _ => ⟨true, rfl, by simp⟩
  · refine allocateWithin_serves (by omega) fun start addr haddr => ⟨addr % align == 0, ?_, ?_⟩
    · rw [haddr, map_some]
    · rw [beq_iff_eq, Nat.dvd_iff_mod_eq_zero]

/-- After the bitmap's frame, two frames fit at `0x2000`, aligned to two pages as well. -/
theorem contiguous_serves_twoBanks : ∃ boot, newFromMap twoBanks = some boot ∧
    ∃ out a', boot.allocateContiguousAligned 2 0x2000 = some (out, a') ∧ out = some 0x2000 ∧
      Serves boot a' 2 (0x2000 ∣ ·) out := by
  obtain ⟨boot, hboot, _, a', hout, rfl⟩ : ∃ boot, newFromMap twoBanks = some boot ∧
      ∃ out a', boot.allocateContiguousAligned 2 0x2000 = some (out, a') ∧ out = some 0x2000 := by
    decide +kernel
  obtain ⟨_, _, hserved, hserves⟩ := (contiguous_serves boot (le_refl 2) 0x2000).2
  cases hout.symm.trans hserved
  exact ⟨boot, hboot, _, a', hout, rfl, hserves⟩

/-! ## guest memory -/

/-- The `n` frames a guest allocation marked are managed, were free, and have the
addresses from `base` on. -/
def GuestRun (a a' : FrameAllocator) (n base : Nat) : Prop :=
  ∃ start, (∀ idx, bit a'.bitmap idx = true ↔
      bit a.bitmap idx = true ∨ (start ≤ idx ∧ idx < start + n)) ∧
    Window (bit a.bitmap) start n ∧
    ∀ i < n, a.layout.frameIndexToAddr (start + i) = some (base + i * pageSize)

theorem FrameAllocator.Claims.start_unique (hn : 0 < n)
    (hc : Claims a a' start n) (hfree : Window (bit a.bitmap) start' n)
    (hbits : ∀ idx, bit a'.bitmap idx = true ↔
      bit a.bitmap idx = true ∨ (start' ≤ idx ∧ idx < start' + n)) : start' = start := by
  have hmarks : bit a'.bitmap start = true := by simp [hc.bits, hn]
  have hmarks' : bit a'.bitmap start' = true := by
    rw [hbits]
    exact .inr ⟨le_rfl, by omega⟩
  have hclear := hc.free 0 hn
  have hclear' := hfree 0 hn
  rw [hbits] at hmarks
  rw [hc.bits] at hmarks'
  simp only [Nat.add_zero] at hclear hclear'
  simp [hclear] at hmarks
  simp [hclear'] at hmarks'
  omega

/-- Every run of `n` free indices that crosses a hole comes after one that crosses
none. -/
def NoLeadingHole (a : FrameAllocator) (n : Nat) : Prop :=
  ∀ s, s + n ≤ a.layout.totalFrames → Window (bit a.bitmap) s n → a.layout.CrossesHole s n →
    ∃ s' < s, Window (bit a.bitmap) s' n ∧ ¬a.layout.CrossesHole s' n

/-- **When guest memory is contiguous**: a guest allocation that succeeds marks managed, free and
physically consecutive frames if and only if no free run across a hole leads the others. -/
theorem guestRun_iff_noLeadingHole (a : FrameAllocator) (n : Nat) :
    (∀ base a', step a (.allocateGuestRam n) = some (.address (some base), a') →
      GuestRun a a' n base) ↔ NoLeadingHole a n := by
  cases a.allocateGuestRam_spec n with
  | inl hnone =>
    -- nothing is taken, and there is no free run that could cross a hole
    obtain ⟨hstep, hrun⟩ := hnone
    constructor
    · intro _ s hin hfree hcross
      have hn : n ≠ 0 := by
        obtain ⟨r₁, -, r₂, -, -, hlo, hhi, -⟩ := hcross
        omega
      exact absurd hfree (findFreeRun_none hrun hn hin)
    · intro _ base a' h
      simp [step, hstep] at h
  | inr htaken =>
    obtain ⟨start, addr, b, hb, hclaims, hrun, haddr, -⟩ := htaken
    obtain ⟨hpos, hin, hfree, hfirst⟩ := findFreeRun_some hrun
    have hstep : step a (.allocateGuestRam n) = some (.address (some addr), b) := by
      simp [step, hb]
    have hiff := Layout.consecutive_iff_not_crossesHole hin haddr
    constructor
    · intro hall s hs hwindow hcross
      obtain ⟨start', hbits, hfree', haddrs⟩ := hall addr b hstep
      obtain rfl := hclaims.start_unique hpos hfree' hbits
      have hnot := hiff.mp haddrs
      have hle : start' ≤ s := by
        by_contra hlt
        exact hfirst s (by omega) hwindow
      have hne : start' ≠ s := by
        intro heq
        rw [heq] at hnot
        exact hnot hcross
      exact ⟨start', by omega, hfree, hnot⟩
    · intro hlead base a' h
      cases hstep.symm.trans h
      have hnot : ¬a.layout.CrossesHole start n := by
        intro hcross
        obtain ⟨s, hs, hwindow, -⟩ := hlead start hin hfree hcross
        exact hfirst s hs hwindow
      refine ⟨start, fun idx => ?_, hfree, hiff.mpr hnot⟩
      simp [hclaims.bits, or_comm]

/-- Right after boot on the map with a hole, a guest allocation of twenty frames spans the hole:
it answers `0x2000`, and its sixteenth frame is at `0x40000`. -/
theorem guestRam_spans_hole : ∃ boot a' base, newFromMap twoBanks = some boot ∧
      step boot (.allocateGuestRam 20) = some (.address (some base), a') ∧
      ¬GuestRun boot a' 20 base := by
  obtain ⟨boot, hboot, hv⟩ := newFromMap_valid twoBanks
  have hcheck : ((newFromMap twoBanks).any fun boot => boot.findFreeRun 20 == some 1) = true := by
    decide +kernel
  simp only [hboot, any_some, beq_iff_eq] at hcheck
  cases boot.allocateGuestRam_spec 20 with
  | inl hnone =>
    rw [hnone.2] at hcheck
    contradiction
  | inr htaken =>
    obtain ⟨start, base, a', hb, hclaims, hrun, haddr, -⟩ := htaken
    obtain rfl : 1 = start := by simpa [hcheck] using hrun
    refine ⟨boot, a', base, hboot, by simp [step, hb], fun hguest => ?_⟩
    obtain ⟨_, hbits, hfree, haddrs⟩ := hguest
    obtain rfl := hclaims.start_unique (by decide) hfree hbits
    have hnot := (Layout.consecutive_iff_not_crossesHole hclaims.inside haddr).mp haddrs
    rw [hv.layout] at hnot
    exact hnot (by decide +kernel)

end Cellos.Memory.Frame
