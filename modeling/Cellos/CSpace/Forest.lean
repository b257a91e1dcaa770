import Cellos.CSpace.Authority

/-!
# Cellos.CSpace.Forest

The slot arena is a forest, and every edit of it keeps it one.

`Forest` is the shape invariant: parents are in use and one level up, and a
slot's `childCount` is the number of in-use slots that name it.  The edits are
publishing a slot below an in-use parent, reclaiming a closed lineage upwards, whose
loop invariant is the forest together with "everything but the current slot is open
or has children", and cutting, which does not touch the shape.

The loops return: no index leaves the arena, no `childCount` goes below zero, and the
depth bounds the climb.
-/

namespace Cellos.CSpace

open Lib CellAuthority

variable {slots : List SlotEntry} {idx : Nat} {i : Nat} {a : CellAuthority} {slot : SlotEntry}

open Finset

/-- The in-use slots that name `p` as their parent. -/
def childrenOf (slots : List SlotEntry) (p : Nat) : Finset Nat :=
  (range slots.length).filter fun i =>
    (slotAt slots i).inUse = true ∧ lineage slots i = some p

theorem mem_childrenOf :
    i ∈ childrenOf slots p ↔ (slotAt slots i).inUse = true ∧ lineage slots i = some p := by
  simp only [childrenOf, mem_filter, mem_range]
  exact ⟨fun h => h.2, fun h => ⟨lt_length_of_inUse h.1, h⟩⟩

/-- The shape invariant of a slot arena. -/
structure Forest (slots : List SlotEntry) : Prop where
  /-- a lineage pointer links two in-use slots on neighbouring levels -/
  parent : ∀ i p, lineage slots i = some p → (slotAt slots i).inUse = true ∧
    (slotAt slots p).inUse = true ∧ (slotAt slots i).depth = (slotAt slots p).depth + 1
  root : ∀ i, (slotAt slots i).inUse = true → lineage slots i = none → (slotAt slots i).depth = 0
  depth_le : ∀ i, (slotAt slots i).inUse = true → (slotAt slots i).depth ≤ maxLineageDepth
  childCount : ∀ i, (slotAt slots i).childCount = (childrenOf slots i).card

namespace Forest

variable (hf : Forest slots)

include hf

/-- Depth ranks the lineage. -/
theorem ranked : Ranked (lineage slots) fun i => (slotAt slots i).depth :=
  fun c p h => (hf.parent c p h).2.2

theorem childrenOf_eq_empty (hi : (slotAt slots i).inUse = false) : childrenOf slots i = ∅ := by
  refine eq_empty_of_forall_notMem fun j hj => ?_
  have hp := (hf.parent j i (mem_childrenOf.mp hj).2).2.1
  rw [hi] at hp
  contradiction

theorem lineage_ne_self (i : Nat) : lineage slots i ≠ some i := by
  intro h
  have := (hf.parent i i h).2.2
  omega

/-- The shape only depends on the in-use flags, pointers, depths and counts. -/
theorem congr (h : ∀ i, (slotAt slots' i).inUse = (slotAt slots i).inUse ∧
      lineage slots' i = lineage slots i ∧ (slotAt slots' i).depth = (slotAt slots i).depth ∧
      (slotAt slots' i).childCount = (slotAt slots i).childCount) : Forest slots' := by
  have hch : ∀ p, childrenOf slots' p = childrenOf slots p := by
    intro p
    ext i
    rw [mem_childrenOf, mem_childrenOf, (h i).1, (h i).2.1]
  constructor
  · intro i p hp
    rw [(h i).2.1] at hp
    rw [(h i).1, (h p).1, (h i).2.2.1, (h p).2.2.1]
    exact hf.parent i p hp
  · intro i hi hr
    rw [(h i).2.2.1]
    exact hf.root i ((h i).1 ▸ hi) ((h i).2.1 ▸ hr)
  · intro i hi
    rw [(h i).2.2.1]
    exact hf.depth_le i ((h i).1 ▸ hi)
  · intro i
    rw [(h i).2.2.2, hch i]
    exact hf.childCount i

end Forest

theorem slotAt_new (cellId generation i : Nat) :
    slotAt (CellAuthority.new cellId generation).slots i = {} := by
  simp only [slotAt, CellAuthority.new, List.getD_eq_getElem?_getD, List.getElem?_replicate]
  split <;> rfl

theorem forest_new (cellId generation : Nat) :
    Forest (CellAuthority.new cellId generation).slots := by
  have hch : ∀ p, childrenOf (CellAuthority.new cellId generation).slots p = ∅ := by
    intro p
    refine eq_empty_of_forall_notMem fun j hj => ?_
    have hu := (mem_childrenOf.mp hj).1
    rw [slotAt_new] at hu
    exact Bool.false_ne_true hu
  constructor
  · intro i p h
    simp only [lineage, slotAt_new] at h
    contradiction
  · intro i hi
    simp only [slotAt_new] at hi
    contradiction
  · intro i hi
    simp only [slotAt_new] at hi
    contradiction
  · intro i
    rw [hch, slotAt_new]
    rfl

/-! ## publishing -/

theorem slotAt_publishSlot (hidx : idx < a.slots.length)
    (hp : ∀ p, slot.lineageParent = some p → p ≠ idx ∧ p < a.slots.length) (j : Nat) :
    slotAt (a.publishSlot idx slot).slots j =
      if j = idx then slot
      else if slot.lineageParent = some j then
        { slotAt a.slots j with childCount := (slotAt a.slots j).childCount + 1 }
      else slotAt a.slots j := by
  unfold CellAuthority.publishSlot
  cases hs : slot.lineageParent with
  | none => simp [slotAt_set hidx]
  | some p =>
    obtain ⟨hne, hlt⟩ := hp p hs
    simp only [slotAt_modify (show p < (a.slots.set idx slot).length by simpa using hlt),
      slotAt_set hidx, Option.some.injEq, if_neg hne]
    by_cases hjp : j = p
    · subst hjp
      simp [hne]
    · simp [hjp, Ne.symm hjp]

theorem Forest.publishSlot (hf : Forest a.slots)
    (hidx : idx < a.slots.length) (hfree : (slotAt a.slots idx).inUse = false)
    (huse : slot.inUse = true) (hcount : slot.childCount = 0)
    (hdepth : slot.depth ≤ maxLineageDepth) (hroot : slot.lineageParent = none → slot.depth = 0)
    (hparent : ∀ p, slot.lineageParent = some p →
      (slotAt a.slots p).inUse = true ∧ slot.depth = (slotAt a.slots p).depth + 1)
    : Forest (a.publishSlot idx slot).slots := by
  have hne : ∀ p, slot.lineageParent = some p → p ≠ idx ∧ p < a.slots.length := by
    intro p hp
    have hu := (hparent p hp).1
    refine ⟨?_, lt_length_of_inUse hu⟩
    rintro rfl
    rw [hfree] at hu
    contradiction
  have hself : slot.lineageParent ≠ some idx := fun h => (hne idx h).1 rfl
  have hat := slotAt_publishSlot (a := a) hidx hne
  have huse' : ∀ j, (slotAt (a.publishSlot idx slot).slots j).inUse =
      if j = idx then true else (slotAt a.slots j).inUse := by
    intro j
    rw [hat]
    split_ifs <;> simp [huse]
  have hlin : ∀ j, lineage (a.publishSlot idx slot).slots j =
      if j = idx then slot.lineageParent else lineage a.slots j := by
    intro j
    simp only [lineage, hat]
    split_ifs <;> rfl
  have hdep : ∀ j, (slotAt (a.publishSlot idx slot).slots j).depth =
      if j = idx then slot.depth else (slotAt a.slots j).depth := by
    intro j
    rw [hat]
    split_ifs <;> rfl
  -- the new slot joins its parent's children and nobody else's
  have hch : ∀ p, childrenOf (a.publishSlot idx slot).slots p =
      if slot.lineageParent = some p then insert idx (childrenOf a.slots p)
      else childrenOf a.slots p := by
    intro p
    ext j
    rw [mem_childrenOf, huse', hlin]
    by_cases hj : j = idx
    · subst hj
      have hnot : j ∉ childrenOf a.slots p := by simp [mem_childrenOf, hfree]
      by_cases h : slot.lineageParent = some p <;> simp [h, hnot]
    · by_cases h : slot.lineageParent = some p <;> simp [h, hj, mem_childrenOf]
  constructor
  · intro i p hp
    rw [hlin] at hp
    rw [huse', huse', hdep, hdep]
    by_cases hi : i = idx
    · rw [if_pos hi] at hp
      obtain ⟨hu, hd⟩ := hparent p hp
      simp [hi, (hne p hp).1, hu, hd]
    rw [if_neg hi] at hp
    obtain ⟨hu, hpu, hd⟩ := hf.parent i p hp
    have hpi : p ≠ idx := by
      rintro rfl
      rw [hfree] at hpu
      contradiction
    simp [hi, hpi, hu, hpu, hd]
  · intro i hi hr
    rw [hlin] at hr
    rw [huse'] at hi
    rw [hdep]
    split_ifs with h
    · exact hroot (by rwa [if_pos h] at hr)
    · exact hf.root i (by rwa [if_neg h] at hi) (by rwa [if_neg h] at hr)
  · intro i hi
    rw [huse'] at hi
    rw [hdep]
    split_ifs with h
    · exact hdepth
    · exact hf.depth_le i (by rwa [if_neg h] at hi)
  · intro i
    rw [hat, hch]
    by_cases hi : i = idx
    · subst hi
      rw [if_pos rfl, if_neg hself, hcount, hf.childrenOf_eq_empty hfree]
      rfl
    · split_ifs with h
      · have hnot : idx ∉ childrenOf a.slots i := by simp [mem_childrenOf, hfree]
        rw [card_insert_of_notMem hnot, ← hf.childCount i]
      · exact hf.childCount i

/-! ## reclaiming -/

/-- The arena after one turn of the reclaim loop: slot `idx` is freed and its
parent, if any, has one child less. -/
def released (slots : List SlotEntry) (idx : Nat) : List SlotEntry :=
  let freed := slots.modify idx fun slot => { slot with lineageParent := none, inUse := false }
  match lineage slots idx with
  | none => freed
  | some p => freed.modify p fun slot => { slot with childCount := slot.childCount - 1 }

theorem length_released (slots : List SlotEntry) (idx : Nat) :
    (released slots idx).length = slots.length := by
  unfold released
  split <;> simp

theorem slotAt_released (hf : Forest slots) (hidx : (slotAt slots idx).inUse = true) (j : Nat) :
    slotAt (released slots idx) j =
      if j = idx then { slotAt slots idx with lineageParent := none, inUse := false }
      else if lineage slots idx = some j then
        { slotAt slots j with childCount := (slotAt slots j).childCount - 1 }
      else slotAt slots j := by
  have hlt := lt_length_of_inUse hidx
  unfold released
  cases hp : lineage slots idx with
  | none => simp [slotAt_modify hlt]
  | some p =>
    have hne : p ≠ idx := by
      rintro rfl
      exact hf.lineage_ne_self p hp
    have hpl := lt_length_of_inUse (hf.parent idx p hp).2.1
    simp only [slotAt_modify (show p < (slots.modify idx _).length by simpa using hpl),
      slotAt_modify hlt, Option.some.injEq, if_neg hne]
    by_cases hjp : j = p
    · subst hjp
      simp [hne]
    · simp [hjp, Ne.symm hjp]

theorem Forest.released (hf : Forest slots) (hidx : (slotAt slots idx).inUse = true)
    (hcount : (slotAt slots idx).childCount = 0) : Forest (released slots idx) := by
  have hat := slotAt_released hf hidx
  set freed := CSpace.released slots idx
  have hleaf : ∀ j, lineage slots j ≠ some idx := by
    intro j hj
    have hmem : j ∈ childrenOf slots idx := mem_childrenOf.mpr ⟨(hf.parent j idx hj).1, hj⟩
    rw [card_eq_zero.mp ((hf.childCount idx).symm.trans hcount)] at hmem
    exact notMem_empty j hmem
  have huse : ∀ j, (slotAt freed j).inUse = if j = idx then false else (slotAt slots j).inUse := by
    intro j
    rw [hat]
    split_ifs <;> rfl
  have hlin : ∀ j, lineage freed j = if j = idx then none else lineage slots j := by
    intro j
    show (slotAt freed j).lineageParent = _
    rw [hat]
    split_ifs <;> rfl
  have hdep : ∀ j, (slotAt freed j).depth = (slotAt slots j).depth := by
    intro j
    rw [hat]
    split_ifs with h
    · rw [h]
    · rfl
    · rfl
  -- the freed slot leaves its parent's children and nobody else's
  have hch : ∀ p, childrenOf freed p = (childrenOf slots p).erase idx := by
    intro p
    ext j
    rw [mem_childrenOf, huse, hlin, mem_erase, mem_childrenOf]
    by_cases hj : j = idx <;> simp [hj]
  constructor
  · intro i p hp
    rw [hlin] at hp
    by_cases hi : i = idx
    · rw [if_pos hi] at hp
      contradiction
    rw [if_neg hi] at hp
    obtain ⟨hu, hpu, hd⟩ := hf.parent i p hp
    have hpi : p ≠ idx := by
      rintro rfl
      exact hleaf i hp
    rw [huse, huse, hdep, hdep, if_neg hi, if_neg hpi]
    exact ⟨hu, hpu, hd⟩
  · intro i hi hr
    rw [hlin] at hr
    rw [huse] at hi
    rw [hdep]
    split_ifs at hi hr with h
    exact hf.root i hi hr
  · intro i hi
    rw [huse] at hi
    rw [hdep]
    split_ifs at hi with h
    exact hf.depth_le i hi
  · intro i
    rw [hat, hch]
    by_cases hi : i = idx
    · subst hi
      have hempty := card_eq_zero.mp ((hf.childCount i).symm.trans hcount)
      rw [if_pos rfl, hempty]
      exact hcount
    split_ifs with h
    · have hmem : idx ∈ childrenOf slots i := mem_childrenOf.mpr ⟨hidx, h⟩
      rw [card_erase_of_mem hmem, ← hf.childCount i]
    · have hnot : idx ∉ childrenOf slots i := by simp [mem_childrenOf, h]
      rw [erase_eq_of_notMem hnot]
      exact hf.childCount i

/-- What reclaiming leaves alone: the slots still in use are as they were up to
their child counts, and no open slot is freed. -/
structure Reclaimed (slots slots' : List SlotEntry) : Prop where
  length : slots'.length = slots.length
  kept : ∀ j, (slotAt slots' j).inUse = true →
    slotAt slots' j = { slotAt slots j with childCount := (slotAt slots' j).childCount }
  open_kept : ∀ j, (slotAt slots j).inUse = true → (slotAt slots j).holderOpen = true →
    (slotAt slots' j).inUse = true

namespace Reclaimed

theorem refl (slots : List SlotEntry) : Reclaimed slots slots :=
  ⟨rfl, fun _ _ => rfl, fun _ h _ => h⟩

theorem trans (h₁ : Reclaimed slots slots') (h₂ : Reclaimed slots' slots'') :
    Reclaimed slots slots'' := by
  constructor
  · rw [h₂.length, h₁.length]
  · intro j hj
    have hj₂ := h₂.kept j hj
    have hu : (slotAt slots' j).inUse = true := by
      rw [hj₂] at hj
      exact hj
    rw [hj₂, h₁.kept j hu]
  · intro j hu ho
    have hu' := h₁.open_kept j hu ho
    refine h₂.open_kept j hu' ?_
    rw [h₁.kept j hu']
    exact ho

/-- One turn of the loop frees a closed slot. -/
theorem released (hf : Forest slots) (hidx : (slotAt slots idx).inUse = true)
    (hclosed : (slotAt slots idx).holderOpen = false) :
    Reclaimed slots (CSpace.released slots idx) := by
  have hat := slotAt_released hf hidx
  refine ⟨length_released slots idx, ?_, ?_⟩
  · intro j hj
    rw [hat] at hj ⊢
    split_ifs at hj ⊢ <;> rfl
  intro j hu ho
  rw [hat]
  by_cases hj : j = idx
  · rw [hj, hclosed] at ho
    contradiction
  · split_ifs <;> exact hu

end Reclaimed

/-- Every in-use slot is open at its holder or has in-use children, except
possibly slot `idx`. -/
def LiveExcept (slots : List SlotEntry) (idx : Nat) : Prop :=
  ∀ j, j ≠ idx → (slotAt slots j).inUse = true →
    (slotAt slots j).holderOpen = true ∨ 0 < (slotAt slots j).childCount

/-- Every in-use slot is open at its holder or has in-use children. -/
def Live (slots : List SlotEntry) : Prop := ∀ j, (slotAt slots j).inUse = true →
    (slotAt slots j).holderOpen = true ∨ 0 < (slotAt slots j).childCount

theorem LiveExcept.live (h : LiveExcept slots idx) (hidx : (slotAt slots idx).inUse = true →
      (slotAt slots idx).holderOpen = true ∨ 0 < (slotAt slots idx).childCount) :
    Live slots := by
  intro j hj
  by_cases hji : j = idx
  · subst hji
    exact hidx hj
  · exact h j hji hj

theorem LiveExcept.released (hf : Forest slots) (hidx : (slotAt slots idx).inUse = true)
    (h : LiveExcept slots idx) (hq : ∀ p, lineage slots idx = some p → p = q) :
    LiveExcept (CSpace.released slots idx) q := by
  intro j hjq hj
  rw [slotAt_released hf hidx] at hj ⊢
  by_cases hji : j = idx
  · rw [if_pos hji] at hj
    contradiction
  · have hjp : lineage slots idx ≠ some j := fun hp => hjq (hq j hp)
    rw [if_neg hji, if_neg hjp] at hj ⊢
    exact h j hji hj

/-- One turn of the loop on a closed, childless, in-use slot: both bounds checks pass, the count
does not underflow, and the climb goes on at the parent. -/
theorem reclaimClosedLineage_succ (hf : Forest slots) (hidx : (slotAt slots idx).inUse = true)
    (hclosed : (slotAt slots idx).holderOpen = false) (hcount : (slotAt slots idx).childCount = 0)
    (fuel : Nat) : reclaimClosedLineage (fuel + 1) slots idx =
      match lineage slots idx with
      | none => some (CSpace.released slots idx)
      | some p => reclaimClosedLineage fuel (CSpace.released slots idx) p := by
  have hlt := lt_length_of_inUse hidx
  unfold CSpace.released
  rw [reclaimClosedLineage, if_neg (by omega), if_neg (by simp [hclosed, hcount])]
  cases hp : lineage slots idx with
  | none =>
    have hp' : (slotAt slots idx).lineageParent = none := hp
    simp [hp']
  | some p =>
    have hp' : (slotAt slots idx).lineageParent = some p := hp
    have hpl := lt_length_of_inUse (hf.parent idx p hp).2.1
    have hne : p ≠ idx := by
      rintro rfl
      exact hf.lineage_ne_self p hp
    -- the slot being freed is one of the children its parent counts
    have hpos : (slotAt slots p).childCount ≠ 0 := by
      rw [hf.childCount p]
      exact card_ne_zero_of_mem (mem_childrenOf.mpr ⟨hidx, hp⟩)
    simp only [hp', List.length_modify, slotAt_modify hlt, if_neg hne]
    rw [if_neg (by omega), if_neg hpos]

/-- **Reclaiming returns and restores the invariant**: the arena is a forest again in which
everything is open or has children, and only closed slots were freed. -/
theorem reclaimClosedLineage_spec (hf : Forest slots)
    (hidx : (slotAt slots idx).inUse = true) (hlive : LiveExcept slots idx)
    (hfuel : (slotAt slots idx).depth < fuel) :
    ∃ slots', reclaimClosedLineage fuel slots idx = some slots' ∧ Forest slots' ∧ Live slots' ∧
      Reclaimed slots slots' := by
  -- the depth of the current slot drops with every turn
  induction fuel generalizing slots idx with
  | zero => omega
  | succ _ ih =>
    by_cases hstop : (slotAt slots idx).holderOpen = true ∨ 0 < (slotAt slots idx).childCount
    · refine ⟨slots, ?_, hf, hlive.live fun _ => hstop, .refl slots⟩
      have hlt := lt_length_of_inUse hidx
      unfold reclaimClosedLineage
      rw [if_neg (by omega), if_pos]
      rcases hstop with h | h
      · simp [h]
      · simp only [Bool.or_eq_true, bne_iff_ne]
        right
        omega
    · have hclosed : (slotAt slots idx).holderOpen = false := by grind
      have hcount : (slotAt slots idx).childCount = 0 := by omega
      have hf' := hf.released hidx hcount
      have hr := Reclaimed.released hf hidx hclosed
      rw [reclaimClosedLineage_succ hf hidx hclosed hcount]
      cases hp : lineage slots idx with
      | none =>
        have hlive' : LiveExcept (CSpace.released slots idx) idx :=
          hlive.released hf hidx (by simp [hp])
        refine ⟨_, rfl, hf', hlive'.live ?_, hr⟩
        rw [slotAt_released hf hidx, if_pos rfl]
        simp
      | some p =>
        obtain ⟨-, hpu, hd⟩ := hf.parent idx p hp
        have hne : p ≠ idx := by
          rintro rfl
          exact hf.lineage_ne_self p hp
        have hat := slotAt_released hf hidx p
        rw [if_neg hne, if_pos hp] at hat
        have hlive' : LiveExcept (CSpace.released slots idx) p := by
          refine hlive.released hf hidx fun q hq => ?_
          rw [hp] at hq
          exact (Option.some.inj hq).symm
        obtain ⟨slots', he, hf'', hl, hr'⟩ := ih hf' (by rw [hat]; exact hpu) hlive'
            (by rw [hat]; dsimp only; omega)
        exact ⟨slots', he, hf'', hl, hr.trans hr'⟩

/-! ## cutting -/

variable (s : SlotEntry)

@[simp] theorem cut_inUse : (cut s).inUse = s.inUse := rfl
@[simp] theorem cut_holderOpen : (cut s).holderOpen = s.holderOpen := rfl
@[simp] theorem cut_childCount : (cut s).childCount = s.childCount := rfl
@[simp] theorem cut_ticket : (cut s).ticket = s.ticket := rfl
@[simp] theorem cut_lineageParent : (cut s).lineageParent = s.lineageParent := rfl
@[simp] theorem cut_depth : (cut s).depth = s.depth := rfl
@[simp] theorem cut_admissionCut : (cut s).admissionCut = true := rfl

theorem cut_of_admissionCut {s : SlotEntry} (h : s.admissionCut = true) : cut s = s := by
  unfold cut
  rw [← h]

theorem Forest.cut (hf : Forest slots)
    (h : ∀ j, slotAt slots' j = slotAt slots j ∨ slotAt slots' j = CellAuthority.cut (slotAt slots
      j)) : Forest slots' := by
  refine hf.congr fun i => ?_
  unfold lineage
  rcases h i with h | h <;> simp [h]

theorem lineage_modify_cut (hi : i < slots.length) :
    lineage (slots.modify i cut) = lineage slots := by
  funext j
  unfold lineage
  rw [slotAt_modify hi]
  split_ifs with h
  · rw [h, cut_lineageParent]
  · rfl

/-- **The sweep cuts exactly the descendants**: among the indices it visits the slots below the
target are cut; nothing else changes. -/
theorem cutDescendants_spec (target : Nat) (is : List Nat) (hf : Forest slots)
    (hlen : maxLineageDepth ≤ slots.length) :
    ∃ slots', cutDescendants target is slots = some slots' ∧ slots'.length = slots.length ∧
      ∀ j, (j ∈ is ∧ Below (lineage slots) j target → slotAt slots' j = cut (slotAt slots j)) ∧
        (¬(j ∈ is ∧ Below (lineage slots) j target) → slotAt slots' j = slotAt slots j) := by
  induction is generalizing slots with
  | nil => exact ⟨slots, rfl, rfl, by simp⟩
  | cons i is ih =>
    unfold cutDescendants
    by_cases hi : (slotAt slots i).inUse = true ∧ (slotAt slots i).admissionCut = false
    · obtain ⟨hu, hc⟩ := hi
      have hlt := lt_length_of_inUse hu
      have hfuel : (slotAt slots i).depth ≤ slots.length + 1 := by
        have := hf.depth_le i hu
        omega
      obtain ⟨b, hb, hiff⟩ := climb_eq_some hf.ranked target hfuel
      rw [if_pos (by simp [hu, hc]), hb]
      cases b with
      | false =>
        have hbelow : ¬Below (lineage slots) i target := fun h => Bool.false_ne_true (hiff.mpr h)
        obtain ⟨slots', he, hl, hat⟩ := ih hf hlen
        refine ⟨slots', he, hl, fun j => ?_⟩
        by_cases hji : j = i
        · subst hji
          refine ⟨fun h => absurd h.2 hbelow, fun _ => (hat j).2 fun h => hbelow h.2⟩
        · simpa [hji] using hat j
      | true =>
        have hbelow : Below (lineage slots) i target := hiff.mp rfl
        have hf' : Forest (slots.modify i cut) := hf.cut fun j => by
          rw [slotAt_modify hlt]
          split_ifs with h <;> simp [h]
        obtain ⟨slots', he, hl, hat⟩ := ih hf' (by simpa using hlen)
        rw [lineage_modify_cut hlt] at hat
        refine ⟨slots', he, by simpa using hl, fun j => ?_⟩
        have hj := hat j
        rw [slotAt_modify hlt] at hj
        by_cases hji : j = i
        · subst hji
          rw [if_pos rfl] at hj
          refine ⟨fun _ => ?_, fun h => absurd ⟨List.mem_cons_self, hbelow⟩ h⟩
          by_cases hmem : j ∈ is
          · exact hj.1 ⟨hmem, hbelow⟩
          · exact hj.2 fun h => hmem h.1
        · simpa [hji] using hj
    · -- a free slot is below nothing; a cut one stays cut
      rw [if_neg (by simpa using hi)]
      obtain ⟨slots', he, hl, hat⟩ := ih hf hlen
      refine ⟨slots', he, hl, fun j => ?_⟩
      by_cases hji : j = i
      · subst hji
        constructor
        · rintro ⟨-, hbelow⟩
          obtain ⟨q, hq, -⟩ := Below.head_iff.mp hbelow
          have hcut : cut (slotAt slots j) = slotAt slots j :=
            cut_of_admissionCut (by grind [(hf.parent j q hq).1])
          by_cases hmem : j ∈ is
          · exact (hat j).1 ⟨hmem, hbelow⟩
          · rw [hcut]
            exact (hat j).2 fun h => hmem h.1
        · intro h
          exact (hat j).2 fun h' => h ⟨List.mem_cons_of_mem j h'.1, h'.2⟩
      · simpa [hji] using hat j

end Cellos.CSpace
