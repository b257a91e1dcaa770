import Cellos.CSpace.Runs

/-!
# Cellos.CSpace.Attenuation

Authority only attenuates.

A derivation compares rights, expiry and kind with the immediate parent alone.
Attenuation is transitive, so as long as every parent link attenuates, every
ancestry does (`Below.lift`).  The invariant is about links only; it survives
closing, reclaiming and reuse because a link is never redirected while it exists.
-/

namespace Cellos.CSpace

open Lib CellAuthority

/-- The child has a subset of the ancestor's rights, an expiry that is not later, and the same
kind. -/
structure Attenuates (child ancestor : SlotEntry) : Prop where
  rights : child.rights &&& ~~~ancestor.rights = 0#32
  expiry : ∀ limit, ancestor.expiry = some limit →
    ∃ value, child.expiry = some value ∧ value ≤ limit
  kind : child.kind = ancestor.kind

namespace Attenuates

theorem trans (h₁ : Attenuates a b) (h₂ : Attenuates b c) : Attenuates a c := by
  refine ⟨by grind [h₁.rights, h₂.rights], fun limit hl => ?_, h₁.kind.trans h₂.kind⟩
  obtain ⟨v, hv, hvl⟩ := h₂.expiry limit hl
  obtain ⟨w, hw, hwv⟩ := h₁.expiry v hv
  exact ⟨w, hw, hwv.trans hvl⟩

theorem congr (h : Attenuates c p)
    (hc : c'.rights = c.rights ∧ c'.expiry = c.expiry ∧ c'.kind = c.kind)
    (hp : p'.rights = p.rights ∧ p'.expiry = p.expiry ∧ p'.kind = p.kind) : Attenuates c' p' := by
  refine ⟨?_, ?_, ?_⟩
  · rw [hc.1, hp.1]
    exact h.rights
  · rw [hc.2.1, hp.2.1]
    exact h.expiry
  · rw [hc.2.2, hp.2.2]
    exact h.kind

end Attenuates

/-- Every lineage link attenuates. -/
def LinksAttenuate (slots : List SlotEntry) : Prop :=
  ∀ c p, lineage slots c = some p → Attenuates (slotAt slots c) (slotAt slots p)

/-- A move that keeps the grants and links of the slots still linked keeps attenuation. -/
theorem LinksAttenuate.of_slots {slots slots' : List SlotEntry} (h : LinksAttenuate slots)
    (hkept : ∀ c p, lineage slots' c = some p → lineage slots c = some p ∧
      ((slotAt slots' c).rights = (slotAt slots c).rights ∧
        (slotAt slots' c).expiry = (slotAt slots c).expiry ∧
        (slotAt slots' c).kind = (slotAt slots c).kind) ∧
      ((slotAt slots' p).rights = (slotAt slots p).rights ∧
        (slotAt slots' p).expiry = (slotAt slots p).expiry ∧
        (slotAt slots' p).kind = (slotAt slots p).kind)) : LinksAttenuate slots' := by
  intro c p hcp
  obtain ⟨hlin, hc, hp⟩ := hkept c p hcp
  exact (h c p hlin).congr hc hp

theorem LinksAttenuate.cut {slots slots' : List SlotEntry} (h : LinksAttenuate slots)
    (hcut : ∀ j, slotAt slots' j = slotAt slots j ∨
      slotAt slots' j = CellAuthority.cut (slotAt slots j)) : LinksAttenuate slots' := by
  refine h.of_slots fun c p hcp => ⟨?_, ?_, ?_⟩
  · unfold lineage at hcp ⊢
    rcases hcut c with hc | hc <;> simpa [hc] using hcp
  · rcases hcut c with hc | hc <;> rw [hc] <;> exact ⟨rfl, rfl, rfl⟩
  · rcases hcut p with hp | hp <;> rw [hp] <;> exact ⟨rfl, rfl, rfl⟩

/-- **A kind-preserving change keeps every link attenuating.** -/
theorem Change.linksAttenuate (hin : inherits) (ha : WellFormed a) (hlinks : LinksAttenuate a.slots)
    (h : Change inherits a issued a') : LinksAttenuate a'.slots := by
  cases h with
  | same => exact hlinks
  | @publish idx slot hfresh hkind =>
    intro c p hcp
    have hnew : slotAt (a.publishSlot idx slot).slots idx = slot := by
      rw [hfresh.slotAt_publishSlot, if_pos rfl]
    unfold lineage at hcp
    by_cases hc : c = idx
    · -- the fresh link: what `allocate_slot` and the entry point have compared
      subst hc
      rw [hnew] at hcp ⊢
      have hadm := hfresh.parent p hcp
      have hpc : p ≠ c := by
        rintro rfl
        have hu := hadm.inUse
        rw [hfresh.free] at hu
        contradiction
      obtain ⟨n, -, hp⟩ := hfresh.slotAt_old hpc
      rw [hp]
      exact { hadm with kind := hkind hin p hcp }
    · obtain ⟨n, -, hat⟩ := hfresh.slotAt_old hc
      rw [hat] at hcp ⊢
      have hpc : p ≠ idx := by
        rintro rfl
        have hu := (ha.forest.parent c p hcp).2.1
        rw [hfresh.free] at hu
        contradiction
      obtain ⟨m, -, hp⟩ := hfresh.slotAt_old hpc
      rw [hp]
      exact (hlinks c p hcp).congr ⟨rfl, rfl, rfl⟩ ⟨rfl, rfl, rfl⟩
  | @close _ _ hidx hforest _ hreclaimed =>
    refine hlinks.of_slots fun c p hcp => ?_
    obtain ⟨hcu, hpu, -⟩ := hforest.parent c p hcp
    have hc := hreclaimed.slotAt_of_close hidx hcu
    have hp := hreclaimed.slotAt_of_close hidx hpu
    unfold lineage at hcp ⊢
    rw [hc] at hcp ⊢
    rw [hp]
    exact ⟨hcp, ⟨rfl, rfl, rfl⟩, rfl, rfl, rfl⟩
  | cut _ hcut => exact hlinks.cut hcut
  | retire =>
    refine hlinks.cut fun j => ?_
    rw [slotAt_retire]
    split_ifs
    · exact .inr rfl
    · exact .inl rfl

/-- Every published authority is well formed and its links attenuate. -/
def AttenuationInv (t : AuthorityTable) : Prop :=
  TableInv t ∧ ∀ key a, t.get key = some a → LinksAttenuate a.slots

theorem AttenuationInv.step (ht : AttenuationInv t)
    (hop : op.inheritsKind) (h : step t op = some (r, t')) : AttenuationInv t' := by
  refine ⟨ht.1.step h, fun key a ha => ?_⟩
  have hrow := rowChange_of_step ht.1 h key
  rw [ha] at hrow
  generalize ho : t.get key = o at hrow
  cases hrow with
  | other => exact ht.2 key a ho
  | published =>
    intro c p hcp
    simp only [lineage, slotAt_new] at hcp
    contradiction
  | change _ hc => exact hc.linksAttenuate hop (ht.1 key _ ho) (ht.2 key _ ho)

/-- **Authority only attenuates**: in every run, a slot with an ancestor holds a subset of the
rights of each of its ancestors, has an expiry not later than any ancestor's, and is of the same
kind. -/
theorem authority_only_attenuates {ops : List Op} {rs : List Response} {t : AuthorityTable}
    (hops : ∀ op ∈ ops, op.inheritsKind) (hrun : run step .empty ops = some (rs, t))
    {key : Key} {a : CellAuthority} (hget : t.get key = some a) {c p : Nat}
    (hanc : Below (lineage a.slots) c p) :
    (slotAt a.slots c).rights &&& ~~~(slotAt a.slots p).rights = 0#32 ∧
      (∀ limit, (slotAt a.slots p).expiry = some limit →
        ∃ value, (slotAt a.slots c).expiry = some value ∧ value ≤ limit) ∧
      (slotAt a.slots c).kind = (slotAt a.slots p).kind := by
  have hempty : AttenuationInv .empty := by
    refine ⟨tableInv_empty, fun key a h => ?_⟩
    simp [AuthorityTable.empty, AuthorityTable.get] at h
  have hguard : Guarded step (fun _ op => op.inheritsKind) .empty ops :=
    guarded_of_forall fun op hmem _ => hops op hmem
  have hinv : AttenuationInv t :=
    run_invariant_of_guarded (fun _ _ _ _ ht => ht.step) hrun hguard hempty
  have h : Attenuates (slotAt a.slots c) (slotAt a.slots p) :=
    Below.lift (fun _ _ _ h₁ => h₁.trans) (hinv.2 key a hget) hanc
  exact ⟨h.rights, h.expiry, h.kind⟩

/-- A root grant, and a handle request on ticket 1 that derives rights 3 until tick 100
for cell 2. -/
def deriveOnce : List Op := [.publish (1, 1),
    .allocate (1, 1) .kernel .kernel .memoryGrant 7#32 (some 200) none,
    .handleControl (1, 1) [1, 0, 0, 0, 1, 0, 0, 0, 1, 0, 0, 0, 0, 0, 0, 0, 2, 0, 0, 0, 0, 0, 0, 0,
        1, 0, 0, 0, 0, 0, 0, 0, 3, 0, 0, 0, 1, 0, 0, 0, 100, 0, 0, 0, 0, 0, 0, 0]]

theorem authority_only_attenuates_deriveOnce :
    ∃ rs t a, run step .empty deriveOnce = some (rs, t) ∧ t.get (1, 1) = some a ∧
      Below (lineage a.slots) 1 0 ∧ (slotAt a.slots 1).rights = 3#32 ∧
      (slotAt a.slots 1).rights &&& ~~~(slotAt a.slots 0).rights = 0#32 := by
  obtain ⟨rs, t, hrun, a, hget, hparent, hrights⟩ : ∃ rs t,
      run step .empty deriveOnce = some (rs, t) ∧ ∃ a, t.get (1, 1) = some a ∧
        lineage a.slots 1 = some 0 ∧ (slotAt a.slots 1).rights = 3#32 := by
    decide +kernel
  have hops : ∀ op ∈ deriveOnce, op.inheritsKind := by simp [deriveOnce, Op.inheritsKind]
  have hanc := Below.single hparent
  exact ⟨rs, t, a, hrun, hget, hanc, hrights, (authority_only_attenuates hops hrun hget hanc).1⟩

end Cellos.CSpace
