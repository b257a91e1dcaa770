import Cellos.Session.Rings

/-!
# Cellos.Session.Commit

The counts of a commit, and of whole runs.

A commit hands counts over: a reader of the child takes the count of its source, the
issuer's peers take the counts of the writers the preparer authorised, and every other
staged writer gets a count of its own.  The records of one commit are pairwise different
(`Staged.compatible`), except that the context may name one staged writer in two slots.
-/

namespace Cellos.Session

open Lib List Option World Endpoint
open Pipes (Pipe PipeEnd PipeHandle duplicateEnd)

variable {r : Ref} {e : Endpoint} {moves : List (Ref × Ref)} {c : Context}
  {g : Grant} {env : Env}

/-- The holders the stream grants of a context name, in slot order. -/
def Context.streams (c : Context) : List Ref :=
  (((List.range contextMaxGrants).filterMap c.grant).filter fun g => g.kind = 1).map (·.object)

/-! ## rights -/

namespace Rights

variable {x y m n : Rights}

open BitVec

/-- A right of a derived holder is a right of its source. -/
theorem and_eq_of_sub (h : x &&& ~~~y = 0) (hm : x &&& m = m) : y &&& m = m := by
  apply eq_of_getLsbD_eq
  intro i hi
  have hsub := congrArg (fun b : Rights => b.getLsbD i) h
  have hmask := congrArg (fun b : Rights => b.getLsbD i) hm
  simp only [getLsbD_and, getLsbD_not, hi, decide_true, Bool.true_and] at hsub hmask ⊢
  cases hx : x.getLsbD i <;> cases hy : y.getLsbD i <;> simp_all

theorem and_or_eq (hm : y &&& m = m) (hn : y &&& n = n) : y &&& (m ||| n) = m ||| n := by
  apply eq_of_getLsbD_eq
  intro i hi
  have hfirst := congrArg (fun b : Rights => b.getLsbD i) hm
  have hsecond := congrArg (fun b : Rights => b.getLsbD i) hn
  simp only [getLsbD_and, getLsbD_or] at hfirst hsecond ⊢
  cases hy : y.getLsbD i <;> simp_all

end Rights

/-- The direction of a stream grant is settled by its slot. -/
theorem Context.Sound.direction (h : c.Sound) (hg : c.grant slot = some g) (hkind : g.kind = 1) :
    BitVec.ofNat 32 g.rights &&& (3 : Rights) = if readerSlot slot then 1 else 2 := by
  obtain ⟨-, haccepted⟩ := h slot g hg
  unfold grantRefusal at haccepted
  rw [if_pos hkind] at haccepted
  simp only [ite_eq_left_iff, reduceCtorEq, imp_false, not_not] at haccepted
  obtain ⟨-, -, hlt, hdirection⟩ := haccepted
  have hreader : ∀ r : Fin 32, r.val % 4 = 1 → BitVec.ofNat 32 r &&& (3 : Rights) = 1 := by decide
  have hwriter : ∀ r : Fin 32, r.val % 4 = 2 → BitVec.ofNat 32 r &&& (3 : Rights) = 2 := by decide
  unfold readerSlot
  by_cases hslot : slot = 0 ∨ slot = 3
  · rw [if_pos hslot] at hdirection
    rw [if_pos (by simpa using hslot), hreader ⟨g.rights, hlt⟩ hdirection]
  · rw [if_neg hslot] at hdirection
    rw [if_neg (by simpa using hslot), hwriter ⟨g.rights, hlt⟩ hdirection]

namespace World

variable {w : World}
variable {p : Prepared} {staged : List (Nat × Endpoint)}

/-! ## what a commit checked -/

theorem eq_of_find (heq : r = r') (ha : w.EndpointAt r a) (hb : w.EndpointAt r' b) : a = b := by
  subst heq
  exact some.inj (ha.symm.trans hb)

/-- A holder staged for a child, and the source it was derived from. -/
structure Staged (w : World) (p : Prepared) (c : Context) (s : Nat × Endpoint) : Prop where
  grant : ∃ g, c.grant s.1 = some g ∧ g.kind = 1 ∧ s.2.rights = BitVec.ofNat 32 g.rights
  found : w.endpoints.find? (fun e => e.reference = s.2.reference) = some s.2
  staged : s.2.prepared = some p.child
  opened : s.2.state = .opened
  source : ∃ e, w.Usable p.preparer s.2.parent Rights.delegate e ∧ e.handle = s.2.handle
    ∧ s.2.rights &&& ~~~e.rights = 0

theorem stagedGrant_eq_ok
    (hg : c.grant slot = some g) (hkind : g.kind = 1) (h : w.stagedGrant p g = .ok e) :
    Staged w p c (slot, e) ∧ e.reference = g.object := by
  simp only [stagedGrant, bind_eq_ok, require_eq_ok, pure_eq_ok] at h
  obtain ⟨_, he, -, ⟨-, hstaged, hopened, -, hrights⟩, source, hsource, -, ⟨hhandle, hsub⟩, rfl⟩ := h
  have hfound := endpointOf_eq_ok he
  obtain ⟨-, href⟩ := mem_of_find hfound
  exact ⟨⟨⟨g, hg, hkind, hrights⟩, href ▸ hfound, hstaged, hopened,
    ⟨source, endpoint_eq_ok hsource, hhandle, hsub⟩⟩, href⟩

/-- The staged holders stand in the order of their slots and are what the grants name. -/
theorem stagedFrom_eq_ok (h : w.stagedFrom p c slots = .ok staged)
    : (∀ s ∈ staged, Staged w p c s) ∧ (staged.map (·.1)).Sublist slots ∧
      staged.map (·.2.reference) =
        ((slots.filterMap c.grant).filter fun g => g.kind = 1).map (·.object) := by
  induction slots generalizing staged with
  | nil =>
    cases h
    exact ⟨by simp, .slnil, rfl⟩
  | cons _ _ ih =>
    unfold stagedFrom at h
    split at h
    · next hg =>
      obtain ⟨hall, hsub, hrefs⟩ := ih h
      refine ⟨hall, hsub.cons _, ?_⟩
      rw [filterMap_cons_none hg]
      exact hrefs
    · next g hg =>
      split at h
      · next hkind =>
        obtain ⟨hall, hsub, hrefs⟩ := ih h
        refine ⟨hall, hsub.cons _, ?_⟩
        rw [filterMap_cons_some hg, filter_cons_of_neg (by simpa using hkind)]
        exact hrefs
      · next hkind =>
        simp only [bind_eq_ok, pure_eq_ok] at h
        obtain ⟨_, he, _, hrest, rfl⟩ := h
        obtain ⟨hall, hsub, hrefs⟩ := ih hrest
        have hone : g.kind = 1 := by simpa using hkind
        obtain ⟨hstaged, href⟩ := stagedGrant_eq_ok hg hone he
        refine ⟨?_, hsub.cons_cons _, ?_⟩
        · intro s hs
          rcases mem_cons.mp hs with rfl | hs
          · exact hstaged
          · exact hall s hs
        · rw [filterMap_cons_some hg, filter_cons_of_pos (by simpa using hone),
            map_cons, map_cons, hrefs, href]

/-- A reserved peer and the writer whose count it takes. -/
structure Move (w : World) (p : Prepared) (m : Ref × Ref) : Prop where
  peer : ∃ a, w.endpoints.find? (fun e => e.reference = m.1) = some a ∧ a.state = .reserved
    ∧ a.parent = m.2
  writer : ∃ b, w.Usable p.preparer m.2 (Rights.write ||| Rights.delegate) b

theorem checkPeer_eq_ok (h : w.checkPeer producer = .ok u) :
    ∃ a, w.EndpointAt producer a ∧ a.state = .reserved := by
  simp only [checkPeer, bind_eq_ok, require_eq_ok] at h
  obtain ⟨a, ha, hreserved⟩ := h
  exact ⟨a, endpointOf_eq_ok ha, hreserved⟩

theorem checkSource_eq_ok (h : w.checkSource p staged slot writer = .ok u) :
    ∃ b target, w.Usable p.preparer writer (Rights.write ||| Rights.delegate) b
      ∧ slotOf staged slot = some target ∧ b.handle.pipe = target.handle.pipe := by
  simp only [checkSource, bind_eq_ok, require_eq_ok, demand_eq_ok] at h
  obtain ⟨b, hb, target, htarget, -, hpipe, -⟩ := h
  exact ⟨b, target, endpoint_eq_ok hb, htarget, hpipe⟩

theorem checkBound_eq_ok (h : w.checkBound p digest n = .ok (some rr)) :
    rr ∈ w.receipts ∧ rr.prepared = p.reference ∧ rr.state = .prepared := by
  unfold checkBound at h
  dsimp only at h
  split at h
  · cases h
  simp only [bind_eq_ok, require_eq_ok, pure_eq_ok, some.injEq] at h
  obtain ⟨_, hrr, -, -, -, ⟨hprepared, -, hstate, -⟩, rfl⟩ := h
  unfold receipt at hrr
  rw [demand_eq_ok] at hrr
  exact ⟨mem_of_find?_eq_some hrr, hprepared, hstate⟩

/-- The slots of the two moves read different rings. -/
def Apart (staged : List (Nat × Endpoint)) : Prop :=
  ∀ a b, slotOf staged 0 = some a → slotOf staged 3 = some b → a.handle.pipe ≠ b.handle.pipe

theorem checkMoves_eq_ok (t : Tracked w) (hp : w.PreparedAt p.reference p)
    (hapart : Apart staged) (hbound : w.checkBound p digest 0 = .ok input)
    (h : w.checkMoves p staged input = .ok moves) :
    (∀ m ∈ moves, Move w p m) ∧ moves.Pairwise fun m m' => m.2 ≠ m'.2 := by
  unfold checkMoves at h
  split at h
  · cases h
    exact ⟨by simp, .nil⟩
  next rr =>
  obtain ⟨hmem, hprepared, hpending⟩ := checkBound_eq_ok hbound
  simp only [bind_eq_ok, demand_eq_ok, pure_eq_ok] at h
  obtain ⟨i, hi, _, _, _, hs0, _, hs3, _, hp1, _, hp2, rfl⟩ := h
  obtain ⟨b0, t0, hb0, ht0, hpipe0⟩ := checkSource_eq_ok hs0
  obtain ⟨b3, t3, hb3, ht3, hpipe3⟩ := checkSource_eq_ok hs3
  obtain ⟨a1, ha1, hr1⟩ := checkPeer_eq_ok hp1
  obtain ⟨a2, ha2, hr2⟩ := checkPeer_eq_ok hp2
  obtain ⟨hmem1, href1⟩ := mem_of_find ha1
  obtain ⟨hmem2, href2⟩ := mem_of_find ha2
  obtain ⟨_, _, hq1, hi1, hparent1⟩ := (t.intents rr hmem hpending a1 hmem1).1 href1
  obtain ⟨_, _, hq2, hi2, hparent2⟩ := (t.intents rr hmem hpending a2 hmem2).2 href2
  rw [hprepared] at hq1 hq2
  cases hp.symm.trans hq1
  cases hp.symm.trans hq2
  cases hi.symm.trans hi1
  cases hi.symm.trans hi2
  have hne : i.writers.1 ≠ i.writers.2 := by
    intro heq
    obtain rfl := eq_of_find heq hb0.found hb3.found
    exact hapart t0 t3 ht0 ht3 (hpipe0.symm.trans hpipe3)
  refine ⟨?_, by simpa using hne⟩
  intro m hm
  rcases mem_cons.mp hm with rfl | hm
  · exact ⟨⟨a1, ha1, hr1, hparent1⟩, ⟨b0, hb0⟩⟩
  · rw [mem_singleton.mp hm]
    exact ⟨⟨a2, ha2, hr2, hparent2⟩, ⟨b3, hb3⟩⟩

/-- What the checks of a commit establish. -/
structure Plan (w : World) (p : Prepared) (c : Context) (plan : CommitPlan) : Prop where
  parsed : p.parsed = some c
  staged : ∀ s ∈ plan.staged, Staged w p c s
  slots : (plan.staged.map (·.1)).Sublist (List.range contextMaxGrants)
  references : plan.staged.map (·.2.reference) = c.streams
  apart : Apart plan.staged
  moves : ∀ m ∈ plan.moves, Move w p m
  writers : plan.moves.Pairwise fun m m' => m.2 ≠ m'.2

theorem checkCommit_eq_ok (t : Tracked w) (hp : w.PreparedAt p.reference p)
    (h : w.checkCommit env p = .ok plan) : ∃ c, Plan w p c plan := by
  simp only [checkCommit, bind_eq_ok, require_eq_ok, demand_eq_ok, pure_eq_ok] at h
  obtain ⟨-, -, c, hc, -, -, _, -, -, -, _, hinput, _, -, _, -, -, -, -, -,
    staged, hstaged, -, -, -, hapart, moves, hmoves, rfl⟩ := h
  simp only [stagedGrants, bind_eq_ok, pure_eq_ok] at hstaged
  obtain ⟨staged', hfrom, -, -, rfl⟩ := hstaged
  obtain ⟨hall, hslots, hrefs⟩ := stagedFrom_eq_ok hfrom
  have happart : Apart staged' := by
    intro a b ha hb heq
    exact hapart ⟨by rw [ha]; rfl, by rw [hb]; rfl, by rw [ha, hb, map_some, map_some, heq]⟩
  obtain ⟨hmove, hpairs⟩ := checkMoves_eq_ok t hp happart hinput hmoves
  exact ⟨c, hc, hall, hslots, hrefs, happart, hmove, hpairs⟩

/-! ## rows of one commit -/

theorem find?_setEndpoint_ne (hf : ∀ e, (f e).reference = e.reference) (h : r ≠ r') :
    (w.setEndpoint r' f).endpoints.find? (fun e => e.reference = r) =
      w.endpoints.find? (fun e => e.reference = r) := by
  refine find?_updateFirst_of_ne (fun e _ => by rw [hf]) fun e he => ?_
  have href : e.reference = r' := (mem_of_find he).2
  simpa [href] using h.symm

theorem find?_setEndpoint_self (hf : ∀ e, (f e).reference = e.reference) (h : w.EndpointAt r e) :
    (w.setEndpoint r f).EndpointAt r (f e) :=
  find?_updateFirst_self h (by simpa [hf] using (mem_of_find h).2)

end World

/-- Two different records are rewritten and the counts they own stay the same in sum. -/
theorem Accounts.exchange (t : Tracked w) {g : Endpoint → Endpoint}
    (hf : ∀ e, (f e).reference = e.reference) (hne : r' ≠ r) (ha : w.EndpointAt r a)
    (hb : w.EndpointAt r' b) (hsa : a.Stays (f a)) (hsb : b.Stays (g b))
    (hbalance : ∀ x, (if (f a).owns x then 1 else 0) + (if (g b).owns x then 1 else 0) =
      (if a.owns x then 1 else 0) + (if b.owns x then 1 else 0)) :
    Accounts w ((w.setEndpoint r f).setEndpoint r' g) := by
  have hb' : (w.setEndpoint r f).EndpointAt r' b := by
    rw [EndpointAt, find?_setEndpoint_ne hf hne]
    exact hb
  have hrows : Forall₂ Stays w.endpoints (w.setEndpoint r f).endpoints :=
    forall₂_updateFirst .refl fun e he => by cases ha.symm.trans he; exact hsa
  have hrows' : Forall₂ Stays (w.setEndpoint r f).endpoints
      ((w.setEndpoint r f).setEndpoint r' g).endpoints :=
    forall₂_updateFirst .refl fun e he => by cases hb'.symm.trans he; exact hsb
  have tmid : Tracked (w.setEndpoint r f) := t.of_ends hrows (fun _ _ => rfl) rfl
  refine ⟨tmid.of_ends hrows' (fun _ _ => rfl) rfl, rfl, fun x => ?_⟩
  have hfirst := holders_setEndpoint f ha x
  have hsecond := holders_setEndpoint g hb' x
  have hbal := hbalance x
  rw [ends_setEndpoint, ends_setEndpoint]
  omega

open Accounts

namespace World

variable {w : World}

theorem find?_moveWriter (h1 : r ≠ m.1) (h2 : r ≠ m.2) :
    (w.moveWriter m).endpoints.find? (fun e => e.reference = r) =
      w.endpoints.find? (fun e => e.reference = r) := by
  unfold moveWriter
  rw [find?_setEndpoint_ne ?_ h2, find?_setEndpoint_ne ?_ h1]
  all_goals exact fun _ => rfl

/-- A peer is not open yet. -/
theorem Move.ne_opened (h : Move w p m) (he : w.EndpointAt r e) (hopened : e.state = .opened) :
    r ≠ m.1 := by
  obtain ⟨a, ha, hreserved, -⟩ := h.peer
  intro heq
  obtain rfl := eq_of_find heq he ha
  rw [hreserved] at hopened
  cases hopened

theorem Move.ne (h : Move w p m) (h' : Move w p m') : m.1 ≠ m'.2 := by
  obtain ⟨b, hb⟩ := h'.writer
  exact (h.ne_opened hb.found hb.opened).symm

theorem accounts_moveWriter (t : Tracked w) (h : Move w p m) : Accounts w (w.moveWriter m) := by
  have hne : m.2 ≠ m.1 := (h.ne h).symm
  obtain ⟨a, ha, hreserved, hparent⟩ := h.peer
  obtain ⟨b, hb⟩ := h.writer
  obtain ⟨hamem, -⟩ := mem_of_find ha
  obtain ⟨hbmem, hbref⟩ := mem_of_find hb.found
  have hhandle : a.handle = b.handle := t.handles a hamem b hbmem (hparent.trans hbref.symm)
  have hpublished := t.reserved a hamem hreserved
  refine exchange t (fun _ => rfl) hne ha hb.found
    ⟨rfl, rfl, rfl, by simp, id⟩ ⟨rfl, rfl, rfl, by simp, id⟩ fun x => ?_
  simp [owns, counted, hreserved, hpublished, hb.opened, hb.published, hhandle]

theorem accounts_moves (t : Tracked w) (h : ∀ m ∈ moves, Move w p m)
    (hpairs : moves.Pairwise fun m m' => m.2 ≠ m'.2) : Accounts w (moves.foldl moveWriter w) := by
  induction moves generalizing w with
  | nil => exact .frame t rfl
  | cons m _ ih =>
    obtain ⟨hfirst, hrest⟩ := pairwise_cons.mp hpairs
    have hm : Move w p m := h m mem_cons_self
    have haccounts := accounts_moveWriter t hm
    refine haccounts.trans (ih haccounts.tracked (fun m' hm' => ?_) hrest)
    have hmove : Move w p m' := h m' (mem_cons_of_mem _ hm')
    have hwriters : m'.2 ≠ m.2 := (hfirst m' hm').symm
    obtain ⟨a, ha, hreserved, hparent⟩ := hmove.peer
    obtain ⟨b, hb⟩ := hmove.writer
    -- the peers name different writers, so they are different
    have hpeers : m'.1 ≠ m.1 := by
      intro heq
      obtain ⟨_, ha', -, hparent'⟩ := hm.peer
      obtain rfl := eq_of_find heq ha ha'
      exact hwriters (hparent.symm.trans hparent')
    refine ⟨⟨a, ?_, hreserved, hparent⟩, ⟨b, { hb with found := ?_ }⟩⟩
    · rw [find?_moveWriter hpeers (hmove.ne hm)]
      exact ha
    · rw [find?_moveWriter (hm.ne hmove).symm hwriters]
      exact hb.found

end World

/-! ## staged holders -/

/-- The counts cover the holders; under the condition they move together. -/
structure Grows (exact : Prop) (w w' : World) : Prop where
  tracked : Tracked w'
  fault : w'.fault = w.fault
  covers : Covers w w'
  carries : exact → Carries w w'

variable {exact : Prop}

theorem Accounts.grows (h : Accounts w w') : Grows exact w w' :=
  ⟨h.tracked, h.fault, h.carries.covers, fun _ => h.carries⟩

theorem Grows.trans (h : Grows exact w w') (h' : Grows exact w' w'') : Grows exact w w'' where
  tracked := h'.tracked
  fault := h'.fault.trans h.fault
  covers := by
    intro x
    have h1 := h.covers x
    have h2 := h'.covers x
    omega
  carries := by
    intro hexact x
    have h1 := h.carries hexact x
    have h2 := h'.carries hexact x
    omega

namespace World

variable {w : World}
variable {s s' : Nat × Endpoint} {r : Ref} {staged : List (Nat × Endpoint)}
  {c : Context}

/-- The records an admission rewrites. -/
def rows (s : Nat × Endpoint) : List Ref :=
  if readerSlot s.1 then [s.2.parent, s.2.reference] else [s.2.reference]

/-- A staged holder that can be admitted.  A writer may have been admitted before, unless
the counts are to stay exact. -/
inductive Ready (exact : Prop) (w : World) (s : Nat × Endpoint) : Prop where
  | reader (hslot : readerSlot s.1 = true)
      (hfound : w.endpoints.find? (fun e => e.reference = s.2.reference) = some s.2)
      (hopened : s.2.state = .opened) (hstaged : s.2.prepared ≠ none) (source : Endpoint)
      (hsource : w.endpoints.find? (fun e => e.reference = s.2.parent) = some source)
      (hcounted : source.counted) (hhandle : source.handle = s.2.handle) : Ready exact w s
  | writer (hslot : readerSlot s.1 = false) (e : Endpoint)
      (hfound : w.endpoints.find? (fun e => e.reference = s.2.reference) = some e)
      (hopened : e.state = .opened) (hstaged : exact → e.prepared ≠ none)
      (hhandle : e.handle = s.2.handle) (hring : 1 ≤ w.ends s.2.handle) : Ready exact w s

theorem duplicateEnd_of_ends (hring : 1 ≤ w.ends h) : (duplicateEnd w.rings h).1 = true := by
  unfold ends at hring
  unfold duplicateEnd
  cases hp : w.rings h.pipe with
  | none =>
    simp only [hp] at hring
    omega
  | some => rfl

theorem grows_admitStaged (t : Tracked w) (h : Ready exact w s) : Grows exact w (w.admitStaged s) := by
  cases h with
  | reader hslot hfound hopened hstaged _ hsource hcounted hhandle =>
    have hne : s.2.reference ≠ s.2.parent := by
      intro heq
      obtain rfl := eq_of_find heq hfound hsource
      simp [counted, hstaged] at hcounted
    unfold admitStaged
    rw [if_pos hslot]
    refine grows (exchange t (fun _ => rfl) hne hsource hfound
      ⟨rfl, rfl, rfl, by simp, id⟩ ⟨rfl, rfl, rfl, by simp [hopened], id⟩ fun x => ?_)
    simp only [counted, decide_eq_true_eq] at hcounted
    simp [owns, counted, hopened, hstaged, hhandle, hcounted]
  | writer hslot e hfound hopened hstaged hhandle hring =>
    have hdup := duplicateEnd_of_ends hring
    let u : World := { w with rings := (duplicateEnd w.rings s.2.handle).2 }
    have hadmitted : w.admitStaged s =
        u.setEndpoint s.2.reference fun e => { e with prepared := none } := by
      unfold admitStaged
      rw [if_neg (by simp [hslot]), hdup]
      simp only [Bool.not_true, Bool.or_false, u]
    have hends (x : PipeHandle) : u.ends x = w.ends x + (if s.2.handle = x then 1 else 0) :=
      ends_duplicateEnd hdup x
    have hrows : Forall₂ Stays w.endpoints (w.admitStaged s).endpoints := by
      rw [hadmitted]
      refine forall₂_updateFirst .refl fun a ha => ?_
      cases hfound.symm.trans ha
      exact ⟨rfl, rfl, rfl, by simp [hopened], id⟩
    have htracked : Tracked (w.admitStaged s) := by
      rw [hadmitted] at hrows ⊢
      refine t.of_ends hrows (fun x hx => ?_) rfl
      have hmade := t.made e (mem_of_find hfound).1
      rw [hhandle] at hmade
      exact counts_duplicateEnd (by omega)
    have hholders (x : PipeHandle) := holders_setEndpoint (w := u)
      (fun e => { e with prepared := none }) hfound x
    have howns (x : PipeHandle) : owns x { e with prepared := none } = true ↔ s.2.handle = x := by
      simp [owns, counted, hopened, hhandle]
    rw [hadmitted]
    refine ⟨hadmitted ▸ htracked, rfl, fun x => ?_, fun hexact x => ?_⟩
    · have hx := hholders x
      simp only [howns] at hx
      rw [ends_setEndpoint, hends]
      change _ + w.ends x ≤ _ + u.holders x
      omega
    · have hx := hholders x
      have hnot : e.owns x = false := by simp [owns, counted, hstaged hexact]
      simp only [howns, hnot, Bool.false_eq_true, if_false] at hx
      rw [ends_setEndpoint, hends]
      change _ + w.ends x = _ + u.holders x
      omega

theorem ends_admitStaged (s : Nat × Endpoint) (x : PipeHandle) :
    w.ends x ≤ (w.admitStaged s).ends x := by
  unfold admitStaged
  split
  · exact le_rfl
  cases hdup : (duplicateEnd w.rings s.2.handle).1 with
  | true =>
    change _ ≤ ({ w with rings := (duplicateEnd w.rings s.2.handle).2 } : World).ends x
    rw [ends_duplicateEnd hdup]
    exact Nat.le_add_right _ _
  | false =>
    have hsame : (duplicateEnd w.rings s.2.handle).2 = w.rings := by
      unfold duplicateEnd at hdup ⊢
      split at hdup
      · rfl
      · cases hdup
    rw [hsame]
    exact le_rfl

theorem find?_admitStaged (h : r ∉ rows s) :
    (w.admitStaged s).endpoints.find? (fun e => e.reference = r) =
      w.endpoints.find? (fun e => e.reference = r) := by
  unfold rows at h
  unfold admitStaged
  split at h
  · next hslot =>
    simp only [mem_cons, not_mem_nil, or_false, not_or] at h
    rw [if_pos hslot, find?_setEndpoint_ne ?_ h.2, find?_setEndpoint_ne ?_ h.1]
    all_goals exact fun _ => rfl
  · next hslot =>
    rw [mem_singleton] at h
    rw [if_neg hslot, find?_setEndpoint_ne ?_ h]
    exact fun _ => rfl

/-- Admitting one staged holder leaves the next one ready. -/
def Compatible (exact : Prop) (s s' : Nat × Endpoint) : Prop :=
  (∀ r ∈ rows s', r ∉ rows s) ∨ (¬exact ∧ readerSlot s.1 = false ∧ readerSlot s'.1 = false)

theorem Ready.admitStaged (h' : Ready exact w s') (hcompatible : Compatible exact s s') :
    Ready exact (w.admitStaged s) s' := by
  cases h' with
  | reader hslot hfound hopened hstaged source hsource hcounted hhandle =>
    rcases hcompatible with hrows | ⟨-, -, hwriter⟩
    · have hparent : s'.2.parent ∉ rows s := hrows _ (by simp [rows, hslot])
      have href : s'.2.reference ∉ rows s := hrows _ (by simp [rows, hslot])
      exact .reader hslot ((find?_admitStaged href).trans hfound) hopened hstaged source
        ((find?_admitStaged hparent).trans hsource) hcounted hhandle
    · rw [hslot] at hwriter
      cases hwriter
  | writer hslot e hfound hopened hstaged hhandle hring =>
    have hring' : 1 ≤ (w.admitStaged s).ends s'.2.handle := hring.trans (ends_admitStaged s _)
    by_cases href : s'.2.reference ∈ rows s
    · rcases hcompatible with hrows | ⟨hinexact, hwriter, -⟩
      · exact absurd href (hrows _ (by simp [rows, hslot]))
      -- the same writer again: it is already the child's
      have heq : s'.2.reference = s.2.reference := by simpa [rows, hwriter] using href
      refine .writer hslot { e with prepared := none } ?_ hopened (fun h => absurd h hinexact)
        hhandle hring'
      rw [heq] at hfound ⊢
      unfold World.admitStaged
      rw [if_neg (by simp [hwriter])]
      refine find?_setEndpoint_self ?_ hfound
      exact fun _ => rfl
    · exact .writer hslot e ((find?_admitStaged href).trans hfound) hopened hstaged hhandle hring'

theorem grows_staged (t : Tracked w) (h : ∀ s ∈ staged, Ready exact w s)
    (hpairs : staged.Pairwise (Compatible exact)) : Grows exact w (staged.foldl admitStaged w) := by
  induction staged generalizing w with
  | nil => exact (frame t rfl).grows
  | cons s _ ih =>
    obtain ⟨hfirst, hrest⟩ := pairwise_cons.mp hpairs
    have hgrows := grows_admitStaged t (h s mem_cons_self)
    refine hgrows.trans (ih hgrows.tracked (fun s' hs' => ?_) hrest)
    exact (h s' (mem_cons_of_mem _ hs')).admitStaged (hfirst s' hs')

/-! ## the records of a commit are different -/

theorem Staged.rights (hc : c.Sound) (h : Staged w p c s) :
    s.2.rights &&& 3 = if readerSlot s.1 then 1 else 2 := by
  obtain ⟨g, hg, hkind, hrights⟩ := h.grant
  rw [hrights]
  exact hc.direction hg hkind

theorem Staged.ne_published (h : Staged w p c s)
    (he : w.EndpointAt r e) (hpublished : e.prepared = none) :
    s.2.reference ≠ r := by
  intro heq
  obtain rfl := eq_of_find heq h.found he
  rw [h.staged] at hpublished
  cases hpublished

/-- The source of a reader is not a writer that moves. -/
theorem Staged.ne_writer (t : Tracked w) (hc : c.Sound) (h : Staged w p c s)
    (hslot : readerSlot s.1 = true) (hm : Move w p m) : s.2.parent ≠ m.2 := by
  obtain ⟨source, hsource, -, hsub⟩ := h.source
  obtain ⟨b, hb⟩ := hm.writer
  intro heq
  obtain rfl := eq_of_find heq hsource.found hb.found
  have hdirection : s.2.rights &&& 3 = 1 := by
    rw [h.rights hc, if_pos hslot]
  have hread : s.2.rights &&& (1 : Rights) = 1 := by
    calc s.2.rights &&& (1 : Rights) = s.2.rights &&& 3 &&& 1 := by rw [BitVec.and_assoc]; rfl
      _ = 1 := by rw [hdirection]; rfl
  have hwrite : source.rights &&& (2 : Rights) = 2 := by
    calc source.rights &&& (2 : Rights)
        = source.rights &&& (Rights.write ||| Rights.delegate) &&& 2 := by rw [BitVec.and_assoc]; rfl
      _ = 2 := by rw [hb.rights]; rfl
  exact t.rights source (mem_of_find hb.found).1 (Rights.and_or_eq (Rights.and_eq_of_sub hsub hread) hwrite)

theorem mem_rows : r ∈ rows s ↔ r = s.2.reference ∨ (readerSlot s.1 = true ∧ r = s.2.parent) := by
  unfold rows
  split
  · next hslot => simp [hslot, or_comm]
  · next hslot => simp [hslot]

theorem slotOf_eq (hnodup : (staged.map (·.1)).Nodup) (hs : s ∈ staged) :
    slotOf staged s.1 = some s.2 := by
  have hfind : staged.find? (fun a => a.1 == s.1) = some s := find?_key_of_nodup hnodup hs
  unfold slotOf
  rw [show staged.find? (fun a => a.1 = s.1) = some s from hfind, map_some]

/-- The two readers of a commit read different rings. -/
theorem pipes_of_readers (hapart : Apart staged) (hnodup : (staged.map (·.1)).Nodup)
    (hs : s ∈ staged) (hs' : s' ∈ staged) (hne : s.1 ≠ s'.1) (hreader : readerSlot s.1 = true)
    (hreader' : readerSlot s'.1 = true) : s.2.handle.pipe ≠ s'.2.handle.pipe := by
  have hslot := slotOf_eq hnodup hs
  have hslot' := slotOf_eq hnodup hs'
  simp only [readerSlot, decide_eq_true_eq] at hreader hreader'
  rcases hreader with h0 | h3
  · have h3' : s'.1 = 3 := by omega
    rw [h0] at hslot
    rw [h3'] at hslot'
    exact hapart _ _ hslot hslot'
  · have h0' : s'.1 = 0 := by omega
    rw [h3] at hslot
    rw [h0'] at hslot'
    exact (hapart _ _ hslot' hslot).symm

/-- Two holders of one commit do not get in each other's way. -/
theorem Staged.compatible (hc : c.Sound) (hapart : Apart staged) (hnodup : (staged.map (·.1)).Nodup)
    (hs : s ∈ staged) (hs' : s' ∈ staged) (h : Staged w p c s) (h' : Staged w p c s')
    (hne : s.1 ≠ s'.1) (hdistinct : c.streams.Nodup → s.2.reference ≠ s'.2.reference) :
    Compatible c.streams.Nodup s s' := by
  obtain ⟨source, hsource, hhandle, -⟩ := h.source
  obtain ⟨_, hsource', hhandle', -⟩ := h'.source
  have hfirst : s'.2.reference ≠ s.2.parent := h'.ne_published hsource.found hsource.published
  have hsecond : s.2.reference ≠ s'.2.parent := h.ne_published hsource'.found hsource'.published
  have hrights := h.rights hc
  have hrights' := h'.rights hc
  by_cases hboth : readerSlot s.1 = false ∧ readerSlot s'.1 = false
  · by_cases hexact : c.streams.Nodup
    · refine .inl fun r hr hr' => ?_
      simp only [mem_rows, hboth, Bool.false_eq_true, false_and, or_false] at hr hr'
      exact hdistinct hexact (hr'.symm.trans hr)
    · exact .inr ⟨hexact, hboth⟩
  · -- one of them is a reader, so the holders differ
    have href : s.2.reference ≠ s'.2.reference := by
      intro heq
      have hrow := eq_of_find heq h.found h'.found
      rw [hrow, hrights'] at hrights
      cases hr : readerSlot s.1 <;> cases hr' : readerSlot s'.1 <;> simp [hr, hr'] at hrights hboth
      exact pipes_of_readers hapart hnodup hs hs' hne hr hr' (by rw [hrow])
    refine .inl fun r hr hr' => ?_
    rw [mem_rows] at hr hr'
    rcases hr with rfl | ⟨hreader', rfl⟩
    · rcases hr' with heq | ⟨-, heq⟩
      · exact href heq.symm
      · exact hfirst heq
    rcases hr' with heq | ⟨hreader, heq⟩
    · exact hsecond heq.symm
    -- one source for two readers: their rings would be the same
    obtain rfl := eq_of_find heq hsource'.found hsource.found
    exact pipes_of_readers hapart hnodup hs hs' hne hreader hreader' (by rw [← hhandle, ← hhandle'])

theorem find?_moves (h : ∀ m ∈ moves, r ≠ m.1 ∧ r ≠ m.2) :
    (moves.foldl moveWriter w).endpoints.find? (fun e => e.reference = r) =
      w.endpoints.find? (fun e => e.reference = r) := by
  induction moves generalizing w with
  | nil => rfl
  | cons m _ ih =>
    obtain ⟨h1, h2⟩ := h m mem_cons_self
    rw [foldl_cons, ih fun m' hm' => h m' (mem_cons_of_mem _ hm'), find?_moveWriter h1 h2]

theorem ends_moves (moves : List (Ref × Ref)) (x : PipeHandle) :
    (moves.foldl moveWriter w).ends x = w.ends x := by
  induction moves generalizing w with
  | nil => rfl
  | cons _ _ ih => rw [foldl_cons, ih, moveWriter, ends_setEndpoint, ends_setEndpoint]

/-- A staged holder is not touched by the moves. -/
theorem Staged.ne_move (h : Staged w p c s) (hm : Move w p m) :
    s.2.reference ≠ m.1 ∧ s.2.reference ≠ m.2 := by
  obtain ⟨b, hb⟩ := hm.writer
  exact ⟨hm.ne_opened h.found h.opened, h.ne_published hb.found hb.published⟩

theorem Staged.ready (k : Covered w) (hc : c.Sound)
    (hmoves : ∀ m ∈ moves, Move w p m) (h : Staged w p c s) :
    Ready exact (moves.foldl moveWriter w) s := by
  obtain ⟨source, hsource, hhandle, -⟩ := h.source
  have hfound : (moves.foldl moveWriter w).EndpointAt s.2.reference s.2 :=
    (find?_moves fun m hm => h.ne_move (hmoves m hm)).trans h.found
  have hstaged : s.2.prepared ≠ none := by simp [h.staged]
  cases hslot : readerSlot s.1 with
  | true =>
    refine .reader hslot hfound h.opened hstaged source ?_ hsource.counted hhandle
    refine (find?_moves fun m hm => ⟨?_, h.ne_writer k.toTracked hc hslot (hmoves m hm)⟩).trans
      hsource.found
    exact (hmoves m hm).ne_opened hsource.found hsource.opened
  | false =>
    refine .writer hslot s.2 hfound h.opened (fun _ => hstaged) rfl ?_
    rw [ends_moves, ← hhandle]
    exact (one_le_holders (mem_of_find hsource.found).1 hsource.counted).trans (k.le _)

/-- **A commit never leaves a holder without a count**, and keeps the counts exact unless
its context names one holder twice. -/
theorem grows_commit (k : Covered w) (hp : p ∈ w.prepared) (h : Plan w p c plan)
    : Grows c.streams.Nodup w (w.applyCommit p plan) := by
  have hc : c.Sound := k.sound p hp c h.parsed
  have hnodup : (plan.staged.map (·.1)).Nodup := nodup_range.sublist h.slots
  have hslots : plan.staged.Pairwise fun s s' => s.1 ≠ s'.1 := pairwise_map.mp hnodup
  have hrefs : plan.staged.Pairwise fun s s' => c.streams.Nodup → s.2.reference ≠ s'.2.reference := by
    by_cases hexact : c.streams.Nodup
    · rw [← h.references] at hexact
      exact (pairwise_map.mp hexact).imp fun hne _ => hne
    · exact hslots.imp fun _ hyes => absurd hyes hexact
  have hpairs : plan.staged.Pairwise (Compatible c.streams.Nodup) :=
    (hslots.and hrefs).imp_of_mem fun hs hs' hne =>
      (h.staged _ hs).compatible hc h.apart hnodup hs hs' (h.staged _ hs') hne.1 hne.2
  have hmoves : Accounts w (plan.moves.foldl moveWriter w) :=
    accounts_moves k.toTracked h.moves h.writers
  have hstaged := grows_staged hmoves.tracked
    (fun s hs => (h.staged s hs).ready k hc h.moves) hpairs
  have hcommit (u : World) (r : Ref) :
      Touch u (u.setReceipt r fun rr => { rr with state := .committed }) :=
    Touch.setReceipt fun rr => ⟨rfl, rfl, rfl, rfl, rfl, rfl, by simp⟩
  have hcommitted (u : World) : Touch u (plan.receipts.foldl
      (fun w r => w.setReceipt r fun rr => { rr with state := .committed }) u) :=
    foldl_related Touch.refl (fun _ _ _ => Touch.trans) (fun v r _ => hcommit v r) u
  have hlive (u : World) (t : Tracked u) : Accounts u (u.setPrepared p.reference fun p =>
      { p with publication := none, context := [], state := .live }) := by
    refine .setPrepared t (forall₂_updateFirst .refl fun q _ => ?_)
    exact ⟨rfl, .inr rfl, id⟩
  have hpublish (u : World) (t : Tracked u) : Accounts u (u.publish plan.publication p.context) :=
    .frame { t with } rfl
  have hrecords := touch hstaged.tracked (hcommitted _)
  have hchild := hlive _ hrecords.tracked
  have htask := hpublish _ hchild.tracked
  exact (hmoves.grows.trans hstaged).trans ((hrecords.trans hchild).trans htask).grows

end World

/-! ## acts -/

section

variable {env : Env} {license : License} {exact : Prop} {w w' : World}

theorem Grows.covered (h : Grows exact w w') (k : Covered w) : Covered w' where
  toTracked := h.tracked
  le := by
    intro x
    have hle : w.holders x ≤ w.ends x := k.le x
    have hcovers : w'.holders x + w.ends x ≤ w'.ends x + w.holders x := h.covers x
    omega
  fault := h.fault.trans k.fault

open Accounts

/-- **Every act covers its holders**; a commit is exact when its context is. -/
theorem Act.grows (k : Covered w) (hcommits : ∀ p c, license.commits w p →
      w.PreparedAt p.reference p → p.parsed = some c →
      exact → c.streams.Nodup) (h : Act env license w w') : Grows exact w w' := by
  have t := k.toTracked
  cases h with
  | touch h => exact (Accounts.touch t h).grows
  | closeReservation r =>
    have hedit : Edit env w (w.closeReservation r) := .closeReservation r
    exact (edit k hedit).grows
  | closeHolder r state h => exact (edits k (edits_closeHolder r state h)).grows
  | cancel r reason => exact (edits k (edits_cancel r reason)).grows
  | operation =>
    exact grows (.frame (t.of_rows (forall₂_refl .refl) (fun _ _ => rfl) (forall₂_refl .refl)
      (forall₂_refl .refl) (Nat.le_succ _) rfl) rfl)
  | stream actor operation capacity => exact (addStream t actor operation capacity).grows
  | duplicate _ _ _ he _ _ hrights hring =>
    exact (addDuplicate t he hrights hring).grows
  | delegate _ _ _ he _ _ hrights => exact (addStaged t he hrights).grows
  | receipt _ _ _ hproducers => exact (addReceipt t hproducers).grows
  | foreground _ _ _ _ _ _ h hintent hs ht href hproducers =>
    exact (addForeground t h hintent hs ht href hproducers).grows
  | stage _ _ h => exact (addPrepared t h).grows
  | bootstrap => exact grows (.frame { t with } rfl)
  | commit p _ hp _ _ hplan hlicense =>
    obtain ⟨c, hc⟩ := checkCommit_eq_ok t hp hplan
    have hgrows := grows_commit k (mem_of_find?_eq_some hp) hc
    exact { hgrows with carries := fun h => hgrows.carries (hcommits p c hlicense hp hc.parsed h) }
  | removeOperation _ _ hdrained => exact (Accounts.removeOperation t hdrained).grows
  | reclaim r => exact (Accounts.reclaim t r).grows
  | dropReceipts keep => exact (Accounts.dropReceipts t keep).grows
  | dropPrepared _ _ hp _ _ hreceipts =>
    exact (Accounts.dropPrepared t hp hreceipts).grows
  | dropBootstraps | ledgers =>
    exact grows (.frame { t with } rfl)

theorem Acts.grows (k : Covered w) (hcommits : ∀ u p c, license.commits u p →
      u.PreparedAt p.reference p → p.parsed = some c →
      exact → c.streams.Nodup) (h : Acts env license w w') : Grows exact w w' := by
  induction h with
  | refl => exact Accounts.grows (.frame { k.toTracked with } rfl)
  | tail _ hact ih => exact ih.trans (hact.grows (ih.covered k) (hcommits _))

end

/-! ## steps -/

namespace World

/-- A request may commit no context that names one holder twice. -/
def distinctGrants (w : World) (selector : Nat) (body : Bytes) : Bool := selector ≠ 13 ||
    match Reader.parse Reader.reference body with
    | .error _ => true
    | .ok r => (w.prepared.find? fun p => p.reference = r).all fun p =>
        p.parsed.all fun c => c.streams.Nodup

theorem grows_execute (k : Covered w) (actor : Principal) (selector : Nat) (body : Bytes)
    (hguard : exact → w.distinctGrants selector body = true) :
    Grows exact w (w.execute env platform actor selector body).2 := by
  refine (acts_execute actor selector body).grows k ?_
  rintro u p c ⟨rfl, rfl, hparse⟩ hfind hparsed hexact
  have hdistinct := hguard hexact
  unfold distinctGrants at hdistinct
  simpa [hparse, hfind, hparsed] using hdistinct

theorem takeKill_named (l : List Prepared) : Forall₂ Prepared.Named l (takeKill l).2 := by
  induction l with
  | nil => exact .nil
  | cons p l ih =>
    unfold takeKill
    split
    · exact .cons ⟨rfl, .inr rfl, id⟩ (Prepared.Named.same l)
    · exact .cons ⟨rfl, .inr rfl, id⟩ ih

theorem accounts_exitTask (k : Covered w) (env : Env) (tid : Nat) (reason : Option Nat) :
    Accounts w (w.exitTask env tid reason) := by
  have hframe : Accounts w w := .frame { k.toTracked with } rfl
  unfold exitTask
  split
  · exact hframe
  next t _ =>
  split
  · split
    · have hcells (cells : List Cell) : Accounts w { w with cells } :=
        .frame { k.toTracked with } rfl
      exact (hcells _).trans
        (.edits ((hcells _).covered k) ((Edits.closing env).retiring t.cell reason))
    · exact hframe
  · exact .frame { k.toTracked with } rfl

theorem accounts_deliverKill (k : Covered w) (env : Env) : Accounts w (w.deliverKill env) := by
  have htaken : Accounts w { w with prepared := (takeKill w.prepared).2 } :=
    .setPrepared k.toTracked (takeKill_named _)
  unfold deliverKill
  split
  · exact htaken
  · exact htaken.trans (accounts_exitTask (htaken.covered k) env _ none)

theorem accounts_finishRetirement (k : Covered w) (principal : Principal) :
    Accounts w (w.finishRetirement principal) := by
  unfold finishRetirement
  split
  · have hgone : Accounts w { w with
        cells := w.cells.filter fun c => c.owner.principal ≠ principal
        tasks := w.tasks.filter fun t => t.cell ≠ principal } :=
      .frame { k.toTracked with } rfl
    have hrecords := hgone.trans (.touch hgone.tracked (touch_terminateAll principal))
    exact hrecords.trans (.frame { hrecords.tracked with } rfl)
  · exact .frame { k.toTracked with } rfl

end World

/-- A step that commits no context that names one holder twice. -/
def commitsDistinct (w : World) : Op → Bool
  | .request _ _ request =>
    match RequestHeader.decode request with
    | .error _ => true
    | .ok header => w.distinctGrants header.selector (request.drop headerLen)
  | _ => true

section

variable {platform : Platform} {exact : Prop} {w w' : World}

/-- **Every step covers its holders**; it is exact when its commit is. -/
theorem grows_step (k : Covered w) {op : Op} {r : Response}
    (hguard : exact → commitsDistinct w op = true) (h : step platform w op = some (r, w')) :
    Grows exact w w' := by
  have hbooks (u : World) (ku : Covered u) (ledgers : List Ledger) (calls : List Call)
      (registry : Nat → Option Binding) : Grows exact u { u with ledgers, calls, registry } :=
    grows (.frame { ku.toTracked with } rfl)
  cases step_course h with
  | books ledgers calls registry => exact hbooks w k ledgers calls registry
  | acts _ _ hacts =>
    refine Acts.grows k ?_ (hacts ⟨fun _ => False, fun _ _ => False⟩)
    exact fun _ _ _ hnever => hnever.elim
  | executed _ _ _ _ actor before after calls u hop hheader hu =>
    subst hop
    simp only [commitsDistinct, hheader] at hguard
    have hentered : Grows exact w { w with ledgers := before } := hbooks w k before w.calls w.registry
    have hdone : Grows exact w u := by
      rw [hu]
      exact hentered.trans (grows_execute (hentered.covered k) actor _ _ hguard)
    exact hdone.trans (hbooks u (hdone.covered k) after calls u.registry)
  | killed env => exact (accounts_deliverKill k env).grows
  | exited env tid reason => exact (accounts_exitTask k env tid reason).grows
  | retired principal => exact (accounts_finishRetirement k principal).grows
  | spawned =>
    unfold spawn
    split
    all_goals exact grows (.frame { k.toTracked with } rfl)
  | threaded =>
    unfold thread
    repeat' split
    all_goals exact grows (.frame { k.toTracked with } rfl)

end

/-! ## runs -/

theorem covered_boot : Covered boot where
  next := by decide
  nodup := .nil
  minted := by simp [boot]
  parents := by simp [boot]
  handles := by simp [boot]
  reserved := by simp [boot]
  rights := by simp [boot]
  made := by simp [boot]
  fresh := fun _ _ => rfl
  sound := by simp [boot]
  producers := by simp [boot]
  intents := by simp [boot]
  le := fun _ => Nat.le_refl 0
  fault := rfl

section

variable {platform : Platform} {ops : List Op} {responses : List Response} {w : World}

/-- The counts of every ring are the numbers of its holders. -/
def Exact (w : World) : Prop := Covered w ∧ ∀ h, w.holders h = w.ends h

theorem exact_of_run (h : run (step platform) boot ops = some (responses, w))
    (hg : Guarded (step platform) (fun w op => commitsDistinct w op = true) boot ops) : Exact w := by
  refine run_invariant_of_guarded (P := Exact) (fun u op r u' hu hguard hstep => ?_) h hg
    ⟨covered_boot, fun _ => rfl⟩
  have hgrows : Grows True u u' := grows_step hu.1 (fun _ => hguard) hstep
  refine ⟨hgrows.covered hu.1, fun x => ?_⟩
  have hcarries := hgrows.carries trivial x
  have hexact := hu.2 x
  omega

/-- **Session ring accounting**: in every run that commits no context naming one holder twice,
the counts of every ring are the numbers of its open, published holder records, a ring that is
gone has none, no count was taken below zero, a read reports end of file exactly when the ring
is empty and no writer is left, and a write a broken pipe exactly when no reader is left. -/
theorem ring_counts_are_holders (h : run (step platform) boot ops = some (responses, w))
    (hg : Guarded (step platform) (fun w op => commitsDistinct w op = true) boot ops) :
    (∀ id p, w.rings id = some p →
      p.readers = w.holders ⟨id, .read⟩ ∧ p.writers = w.holders ⟨id, .write⟩) ∧
    (∀ handle, w.rings handle.pipe = none → w.holders handle = 0) ∧
    w.fault = false ∧
    (∀ handle p n out w', w.rings handle.pipe = some p → w.sessionRead handle n = some (out, w') →
      (out = .eof ↔ p.isEmpty = true ∧ w.holders ⟨handle.pipe, .write⟩ = 0)) ∧
    (∀ handle src out w', w.sessionWrite handle src = some (out, w') →
      (out = .noReader ↔ w.holders ⟨handle.pipe, .read⟩ = 0)) := by
  obtain ⟨hcovered, hexact⟩ := exact_of_run h hg
  have hcounts : ∀ id p, w.rings id = some p →
      p.readers = w.holders ⟨id, .read⟩ ∧ p.writers = w.holders ⟨id, .write⟩ := by
    intro id p hp
    rw [hexact, hexact, ends, ends, hp]
    exact ⟨rfl, rfl⟩
  refine ⟨hcounts, fun handle hnone => ?_, hcovered.fault, fun handle p n out w' hp hread => ?_,
    fun handle src out w' hwrite => ?_⟩
  · rw [hexact, ends, hnone]
  · rw [← (hcounts _ p hp).2]
    simp only [sessionRead, hp, map_some, some.injEq] at hread
    split at hread
    · next hfull =>
      cases hread
      simp [hfull]
    · next hempty =>
      split at hread
      · next hzero =>
        cases hread
        simpa [hzero] using hempty
      · next hopen =>
        cases hread
        simp [hopen]
  · unfold sessionWrite at hwrite
    rw [map_eq_some_iff] at hwrite
    obtain ⟨p, hp, hout⟩ := hwrite
    rw [← (hcounts _ p hp).1]
    split at hout
    · next hzero =>
      cases hout
      simp [hzero]
    · next hopen =>
      split at hout
      · cases hout
        simp [hopen]
      · cases hout
        simp [hopen]

end

/-- A grant record of a context. -/
def grantBytes (kind rights slot : Nat) (object : Ref) : Bytes :=
  leBytes 2 kind ++ leBytes 2 rights ++ leBytes 2 slot ++ leBytes 2 0 ++ leBytes 8 0
    ++ object.toBytes ++ leBytes 8 0

/-- A context of an operation with nothing but grants. -/
def contextBytes (operation : Ref) (grants : List Bytes) : Bytes :=
  leBytes 4 1 ++ leBytes 4 (48 + 40 * grants.length) ++ leBytes 4 0 ++ leBytes 4 0 ++ leBytes 2 0
    ++ leBytes 2 grants.length ++ leBytes 4 0 ++ leBytes 4 0 ++ leBytes 4 0 ++ operation.toBytes
    ++ grants.flatten

/-- A cell makes a stream, stages its writer for a child and commits the child with a
context that has the given grants. -/
def launchWith (grants : List Bytes) : List Op :=
  let operation : Ref := ⟨1, 1⟩
  let writer : Ref := ⟨3, 1⟩
  let child : Child := ⟨⟨11, 2⟩, 2, 2⟩
  let context := contextBytes operation grants
  let send (selector id : Nat) (body : Bytes) :=
    dispatched (calm 11) 1 (encodeRequest selector id body)
  [.spawn 10] ++ send 1 1 Ref.zero.toBytes
    ++ send 2 1 (operation.toBytes ++ leBytes 4 64 ++ leBytes 4 0)
    ++ send 10 2 (operation.toBytes ++ leBytes 4 1 ++ leBytes 4 2 ++ leBytes 4 context.length
      ++ leBytes 4 0 ++ [47, 97])
    ++ [.resume (calm 11) 1, .resume (calm 11) 1, .finish 1]
    ++ send 4 3 (writer.toBytes ++ child.toBytes ++ leBytes 4 2 ++ leBytes 4 0)
    ++ send 11 4 (child.preparedRef.toBytes ++ leBytes 4 0 ++ leBytes 4 context.length ++ context)
    ++ send 13 5 child.preparedRef.toBytes

/-- The staged writer in one slot: the counts agree. -/
theorem ring_counts_are_holders_launch : ∃ responses w p,
    run (step plain) boot (launchWith [grantBytes 1 2 1 ⟨4, 1⟩]) = some (responses, w) ∧
      w.rings 1 = some p ∧ p.writers = 2 ∧ w.holders ⟨1, .write⟩ = 2 ∧ w.fault = false := by
  have hguard : Guarded (step plain) (fun w op => commitsDistinct w op = true) boot
      (launchWith [grantBytes 1 2 1 ⟨4, 1⟩]) := by decide +kernel
  obtain ⟨responses, w, hrun, p, hp, hwriters⟩ : ∃ responses w,
      run (step plain) boot (launchWith [grantBytes 1 2 1 ⟨4, 1⟩]) = some (responses, w) ∧
        ∃ p, w.rings 1 = some p ∧ p.writers = 2 := by decide +kernel
  obtain ⟨hcounts, -, hfault, -⟩ := ring_counts_are_holders hrun hguard
  exact ⟨responses, w, p, hrun, hp, hwriters, (hcounts 1 p hp).2 ▸ hwriters, hfault⟩

/-- The staged writer in two slots: the ring counts three writers and has two. -/
theorem repeated_grant_counted_twice : ∃ responses w p,
    run (step plain) boot (launchWith [grantBytes 1 2 1 ⟨4, 1⟩, grantBytes 1 2 2 ⟨4, 1⟩]) =
        some (responses, w) ∧
      w.rings 1 = some p ∧ p.writers = 3 ∧ w.holders ⟨1, .write⟩ = 2 := by
  obtain ⟨responses, w, hrun, p, hp, hcounts⟩ : ∃ responses w, run (step plain) boot
      (launchWith [grantBytes 1 2 1 ⟨4, 1⟩, grantBytes 1 2 2 ⟨4, 1⟩]) = some (responses, w) ∧
        ∃ p, w.rings 1 = some p ∧ p.writers = 3 ∧ w.holders ⟨1, .write⟩ = 2 := by
    decide +kernel
  exact ⟨responses, w, p, hrun, hp, hcounts⟩

end Cellos.Session
