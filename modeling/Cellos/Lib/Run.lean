import Mathlib

/-!
# Cellos.Lib.Run

Runs of a deterministic transaction system.

A component is given by one function `step : σ → ι → Option (ρ × σ)`: a
transaction takes the state and an input and yields a response and the next
state, or `none` when the code does not return (a panic, or a loop that never
ends).  `run` feeds a list of inputs to it and collects the responses.

What one step preserves a run preserves (`run_invariant`), also when its steps have to satisfy
a guard; `run_history` is the same for what relates the responses so far to the state, and
`run_total` for runs that are not stuck.
-/

namespace Cellos.Lib

open List

variable {σ ι ρ : Type*}

/-- Feed the inputs to `step` one after another, collecting the responses. -/
def run (step : σ → ι → Option (ρ × σ)) : σ → List ι → Option (List ρ × σ)
  | s, [] => some ([], s)
  | s, i :: is =>
    match step s i with
    | none => none
    | some (r, s') =>
      match run step s' is with
      | none => none
      | some (rs, s'') => some (r :: rs, s'')

/-- Every step of the run over `is` is taken from a state that satisfies the
guard for that step's input. -/
def Guarded (step : σ → ι → Option (ρ × σ)) (guard : σ → ι → Prop) : σ → List ι → Prop
  | _, [] => True
  | s, i :: is => guard s i ∧ ∀ r s', step s i = some (r, s') → Guarded step guard s' is

variable {step : σ → ι → Option (ρ × σ)} {guard : σ → ι → Prop} {s s' : σ} {is : List ι}
  {rs : List ρ} {P : σ → Prop} {s'' : σ} {i : ι} {r : ρ} {js : List ι} {H : List ρ → σ → Prop}

@[simp] theorem run_nil (s : σ) : run step s [] = some ([], s) := rfl

theorem run_cons_eq_some : run step s (i :: is) = some (rs, s'') ↔
      ∃ r s' rs', step s i = some (r, s') ∧ run step s' is = some (rs', s'') ∧ rs = r :: rs' := by
  constructor
  · intro h
    simp only [run] at h
    split at h
    · contradiction
    next r s' hs =>
    split at h
    · contradiction
    · next rs' t hr =>
      cases h
      exact ⟨r, s', rs', hs, hr, rfl⟩
  · rintro ⟨_, _, _, hs, hr, rfl⟩
    simp only [run, hs, hr]

theorem run_singleton :
    run step s [i] = some (rs, s') ↔ ∃ r, step s i = some (r, s') ∧ rs = [r] := by
  rw [run_cons_eq_some]
  constructor
  · rintro ⟨r, _, _, hs, hr, rfl⟩
    cases hr
    exact ⟨r, hs, rfl⟩
  · rintro ⟨r, hs, rfl⟩
    exact ⟨r, s', [], hs, rfl, rfl⟩

/-- Runs compose: the run over `is ++ js` goes through the state `is` ends in. -/
theorem run_append : run step s (is ++ js) = some (rs, s'') ↔
      ∃ rs₁ s' rs₂, run step s is = some (rs₁, s') ∧ run step s' js = some (rs₂, s'') ∧
        rs = rs₁ ++ rs₂ := by
  induction is generalizing s rs with
  | nil => simp
  | cons _ _ ih =>
    simp only [cons_append, run_cons_eq_some, ih]
    constructor
    · rintro ⟨r, t, _, hs, ⟨rs₁, u, rs₂, h₁, h₂, rfl⟩, rfl⟩
      exact ⟨r :: rs₁, u, rs₂, ⟨r, t, rs₁, hs, h₁, rfl⟩, h₂, rfl⟩
    · rintro ⟨_, u, rs₂, ⟨r, t, rs', hs, h₁, rfl⟩, h₂, rfl⟩
      exact ⟨r, t, rs' ++ rs₂, hs, ⟨rs', u, rs₂, h₁, h₂, rfl⟩, rfl⟩

theorem guarded_cons_iff (h : step s i = some (r, s')) :
    Guarded step guard s (i :: is) ↔ guard s i ∧ Guarded step guard s' is := by
  constructor
  · intro hg
    exact ⟨hg.1, hg.2 r s' h⟩
  · rintro ⟨hi, hg⟩
    refine ⟨hi, fun r' t ht => ?_⟩
    cases h.symm.trans ht
    exact hg

/-- What a call returns can be computed and looked at. -/
instance decidableOutcome {α β : Type*} {o : Option (α × β)} {p : α → β → Prop}
    [∀ a b, Decidable (p a b)] : Decidable (∃ a b, o = some (a, b) ∧ p a b) :=
  match o with
  | none => isFalse (by simp)
  | some (a, b) => decidable_of_iff (p a b) (by simp)

instance decidableFound {α : Type*} {o : Option α} {p : α → Prop} [∀ a, Decidable (p a)] :
    Decidable (∃ a, o = some a ∧ p a) :=
  match o with
  | none => isFalse (by simp)
  | some a => decidable_of_iff (p a) (by simp)

/-- Whether a run is guarded can be computed when the guard can. -/
instance Guarded.decidable [∀ s i, Decidable (guard s i)] :
    ∀ (s : σ) (is : List ι), Decidable (Guarded step guard s is)
  | _, [] => isTrue trivial
  | s, i :: is =>
    match h : step s i with
    | none => decidable_of_iff (guard s i) ⟨fun hi => ⟨hi, fun r s' hs => by simp [h] at hs⟩, And.left⟩
    | some (_, s') =>
      have := Guarded.decidable s' is
      decidable_of_iff _ (guarded_cons_iff h).symm

/-- A guard every input meets in every state holds along the run. -/
theorem guarded_of_forall (h : ∀ i ∈ is, ∀ s, guard s i) : Guarded step guard s is := by
  induction is generalizing s with
  | nil => trivial
  | cons i _ ih =>
    exact ⟨h i mem_cons_self s, fun _ _ _ => ih fun j hj => h j (mem_cons_of_mem i hj)⟩

theorem Guarded.append (hg : Guarded step guard s (is ++ js)) (h : run step s is = some (rs, s')) :
    Guarded step guard s is ∧ Guarded step guard s' js := by
  induction is generalizing s rs with
  | nil =>
    cases h
    exact ⟨trivial, hg⟩
  | cons _ _ ih =>
    obtain ⟨_, _, _, ht, hr, rfl⟩ := run_cons_eq_some.mp h
    obtain ⟨hi, htail⟩ := (guarded_cons_iff ht).mp hg
    obtain ⟨hfirst, hrest⟩ := ih htail hr
    exact ⟨(guarded_cons_iff ht).mpr ⟨hi, hfirst⟩, hrest⟩

/-- If every input of the list, in a good state, yields a step to a good state,
the run from a good state returns. -/
theorem run_total (hstep : ∀ i ∈ is, ∀ s, P s → ∃ r s', step s i = some (r, s') ∧ P s') (hs : P s) :
    ∃ rs s', run step s is = some (rs, s') ∧ P s' := by
  induction is generalizing s with
  | nil => exact ⟨[], s, rfl, hs⟩
  | cons i _ ih =>
    obtain ⟨r, t, ht, hPt⟩ := hstep i mem_cons_self s hs
    obtain ⟨rs, s', hr, hP⟩ := ih (fun j hj => hstep j (mem_cons_of_mem i hj)) hPt
    exact ⟨r :: rs, s', run_cons_eq_some.mpr ⟨r, t, rs, ht, hr, rfl⟩, hP⟩

/-- **A step of a run**: what stands before it, and what comes after it, are runs. -/
theorem run_get {k : Nat} (h : run step s is = some (rs, s''))
    (hr : rs[k]? = some r) : ∃ i s₁ s₂, is[k]? = some i ∧
      run step s (is.take k) = some (rs.take k, s₁) ∧ step s₁ i = some (r, s₂) ∧
      run step s₂ (is.drop (k + 1)) = some (rs.drop (k + 1), s'') := by
  induction is generalizing s rs k with
  | nil =>
    cases h
    simp at hr
  | cons i is ih =>
    obtain ⟨q, t, rs, ht, hrun, rfl⟩ := run_cons_eq_some.mp h
    cases k with
    | zero =>
      obtain rfl : q = r := by simpa using hr
      exact ⟨i, s, t, rfl, rfl, ht, hrun⟩
    | succ k =>
      obtain ⟨j, s₁, s₂, hj, hbefore, hstep, hafter⟩ := ih hrun (by simpa using hr)
      exact ⟨j, s₁, s₂, by simpa using hj, run_cons_eq_some.mpr ⟨q, t, _, ht, hbefore, rfl⟩, hstep,
        hafter⟩

/-- **History rule**: what holds of the responses so far and the state, and is kept by every
step that satisfies the guard, holds at the end of every guarded run. -/
theorem run_history_of_guarded
    (hstep : ∀ rs s i r s', H rs s → guard s i → step s i = some (r, s') → H (rs ++ [r]) s')
    (h : run step s is = some (rs, s')) (hg : Guarded step guard s is) (hs : H [] s) : H rs s' := by
  induction is using List.reverseRecOn generalizing rs s' with
  | nil =>
    cases h
    exact hs
  | append_singleton _ i ih =>
    obtain ⟨rs₁, s₁, _, hrun, hlast, rfl⟩ := run_append.mp h
    obtain ⟨r, hi, rfl⟩ := run_singleton.mp hlast
    obtain ⟨hg₁, hg₂⟩ := hg.append hrun
    exact hstep rs₁ s₁ i r s' (ih hrun hg₁) hg₂.1 hi

/-- **History rule** for all runs. -/
theorem run_history (hstep : ∀ rs s i r s', H rs s → step s i = some (r, s') → H (rs ++ [r]) s')
    (h : run step s is = some (rs, s')) (hs : H [] s) : H rs s' := by
  have hg : Guarded step (fun _ _ => True) s is := guarded_of_forall fun _ _ _ => trivial
  exact run_history_of_guarded (fun rs s i r s' hH _ => hstep rs s i r s' hH) h hg hs

/-- **Guarded invariant rule**: a property preserved by every step that satisfies
the guard is preserved by every run whose steps all satisfy it. -/
theorem run_invariant_of_guarded
    (hstep : ∀ s i r s', P s → guard s i → step s i = some (r, s') → P s')
    (h : run step s is = some (rs, s')) (hg : Guarded step guard s is) (hs : P s) : P s' :=
  run_history_of_guarded (fun _ => hstep) h hg hs

/-- **Invariant rule**: a property every step preserves is preserved by every run. -/
theorem run_invariant (hstep : ∀ s i r s', P s → step s i = some (r, s') → P s')
    (h : run step s is = some (rs, s')) (hs : P s) : P s' :=
  run_history (fun _ => hstep) h hs

/-! ## events

A response may report an event.  These rules relate the events of a run to what
holds at its ends: an event establishes a property that every later step keeps, a
property that every step keeps excludes an event, and an event that excludes
itself happens at most once. -/

section

variable {P S : σ → Prop} {E : ρ → Prop}

/-- **Invariant rule without an event**: a property every other step preserves is
preserved by every run in which the event does not occur. -/
theorem run_invariant_unless (hstep : ∀ s i r s', P s → ¬ E r → step s i = some (r, s') → P s')
    (h : run step s is = some (rs, s')) (hnone : ∀ r ∈ rs, ¬ E r) (hs : P s) : P s' := by
  refine run_history (H := fun rs s => (∀ r ∈ rs, ¬ E r) → P s) ?_ h (fun _ => hs) hnone
  intro rs s i r s' hH hst hnone
  obtain ⟨hold, hr⟩ := forall_mem_append.mp hnone
  exact hstep s i r s' (hH hold) (hr r (mem_singleton_self r)) hst

variable (hP : ∀ s i r s', P s → step s i = some (r, s') → P s')

include hP

/-- **Establishing**: after a run in which the event occurred, what it establishes holds. -/
theorem run_established (hS : ∀ s i r s', P s → S s → step s i = some (r, s') → S s')
    (hE : ∀ s i r s', P s → step s i = some (r, s') → E r → S s')
    (h : run step s is = some (rs, s')) (hs : P s) (hr : r ∈ rs) (he : E r) : S s' := by
  refine (run_history (H := fun rs s => P s ∧ ∀ r ∈ rs, E r → S s) ?_ h ⟨hs, by simp⟩).2 r hr he
  intro rs s i r s' ⟨hs, hold⟩ hst
  exact ⟨hP s i r s' hs hst, forall_mem_append.mpr
    ⟨fun q hq hq' => hS s i r s' hs (hold q hq hq') hst, forall_mem_singleton.mpr (hE s i r s' hs hst)⟩⟩

/-- **Excluding**: a property that every step keeps and the event contradicts keeps the
event out of every run. -/
theorem run_excludes (hE : ∀ s i r s', P s → step s i = some (r, s') → ¬ E r)
    (h : run step s is = some (rs, s')) (hs : P s) : ∀ r ∈ rs, ¬ E r := by
  refine (run_history (H := fun rs s => P s ∧ ∀ r ∈ rs, ¬ E r) ?_ h ⟨hs, by simp⟩).2
  intro rs s i r s' ⟨hs, hold⟩ hst
  exact ⟨hP s i r s' hs hst, forall_mem_append.mpr
    ⟨hold, forall_mem_singleton.mpr (hE s i r s' hs hst)⟩⟩

/-- **At most once**: if the event with a key rules out every later one with that key,
no key occurs twice. -/
theorem run_nodup {κ : Type*} {key : ρ → Option κ} {Q : κ → σ → Prop}
    (hQ : ∀ k s i r s', P s → Q k s → step s i = some (r, s') → Q k s')
    (hkey : ∀ k s i r s', P s → step s i = some (r, s') → key r = some k → Q k s')
    (hout : ∀ k s i r s', P s → Q k s → step s i = some (r, s') → key r ≠ some k)
    (h : run step s is = some (rs, s')) (hs : P s) : (rs.filterMap key).Nodup := by
  induction is generalizing s rs with
  | nil =>
    cases h
    exact nodup_nil
  | cons i _ ih =>
    obtain ⟨r, t, _, ht, hrun, rfl⟩ := run_cons_eq_some.mp h
    have hPt := hP s i r t hs ht
    cases hk : key r with
    | none =>
      rw [filterMap_cons_none hk]
      exact ih hrun hPt
    | some k =>
      rw [filterMap_cons_some hk, nodup_cons]
      refine ⟨fun hmem => ?_, ih hrun hPt⟩
      obtain ⟨r', hr', hk'⟩ := mem_filterMap.mp hmem
      exact run_excludes (P := fun s => P s ∧ Q k s)
        (fun s i r s' hs hst => ⟨hP s i r s' hs.1 hst, hQ k s i r s' hs.1 hs.2 hst⟩)
        (fun s i r s' hs hst => hout k s i r s' hs.1 hs.2 hst)
        hrun ⟨hPt, hkey k s i r t hs ht hk⟩ r' hr' hk'

/-- **Origin rule**: where every step finds a thing it already had, unchanged up to `R`, or makes
it, a thing at the end of a run that began without any was made by one of the steps. -/
theorem run_origin {α : Type*} {B : α → σ → Prop} {R : α → α → Prop}
    {C : α → σ → ι → ρ → Prop}
    (hrefl : ∀ a, R a a) (htrans : ∀ a b c, R a b → R b c → R a c)
    (hback : ∀ s i r s' b, P s → step s i = some (r, s') → B b s' →
      (∃ a, B a s ∧ R a b) ∨ C b s i r)
    (h : run step s is = some (rs, s')) (hs : P s) (hnone : ∀ a, ¬ B a s) {b : α} (hb : B b s') :
    ∃ is₁ i is₂ rs₁ r s₁ s₂ a, is = is₁ ++ i :: is₂ ∧ run step s is₁ = some (rs₁, s₁) ∧
      step s₁ i = some (r, s₂) ∧ C a s₁ i r ∧ R a b := by
  induction is using List.reverseRecOn generalizing rs s' b with
  | nil =>
    cases h
    exact absurd hb (hnone b)
  | append_singleton is i ih =>
    obtain ⟨rs₁, s₁, rs₂, hrun, hlast, rfl⟩ := run_append.mp h
    obtain ⟨r, hstep, rfl⟩ := run_singleton.mp hlast
    have hPs : P s₁ := run_invariant hP hrun hs
    rcases hback s₁ i r s' b hPs hstep hb with ⟨a, ha, hab⟩ | hmade
    · obtain ⟨is₁, j, is₂, rs₀, q, t₁, t₂, c, rfl, hbefore, hj, hc, hca⟩ := ih hrun ha
      exact ⟨is₁, j, is₂ ++ [i], rs₀, q, t₁, t₂, c, by simp, hbefore, hj, hc, htrans c a b hca hab⟩
    · exact ⟨is, i, [], rs₁, r, s₁, s', b, rfl, hrun, hstep, hmade, hrefl b⟩

end

/-- **Projection rule**: when the inputs outside `p` leave a view of the state alone and the
others depend on it only, a run without them gives the same answers and the same view. -/
theorem run_project {ν : Type*} {V : σ → ν} {p : ι → Bool}
    (hother : ∀ s i r s', p i = false → step s i = some (r, s') → V s' = V s)
    (hlocal : ∀ s t i r s', p i = true → V s = V t → step s i = some (r, s') →
      ∃ t', step t i = some (r, t') ∧ V s' = V t')
    (h : run step s is = some (rs, s')) (hview : V s = V t) :
    ∃ t', run step t (is.filter p) = some (((is.zip rs).filter (p ·.1)).map Prod.snd, t') ∧
      V s' = V t' := by
  induction is generalizing s t rs with
  | nil =>
    cases h
    exact ⟨t, rfl, hview⟩
  | cons i is ih =>
    obtain ⟨r, u, rs', hstep, hrun, rfl⟩ := run_cons_eq_some.mp h
    cases hp : p i with
    | false =>
      obtain ⟨t', hrun', hview'⟩ := ih hrun ((hother s i r u hp hstep).trans hview)
      exact ⟨t', by simpa [hp] using hrun', hview'⟩
    | true =>
      obtain ⟨v, hstep', hv⟩ := hlocal s t i r u hp hview hstep
      obtain ⟨t', hrun', hview'⟩ := ih hrun hv
      refine ⟨t', ?_, hview'⟩
      rw [filter_cons_of_pos hp, run_cons_eq_some]
      exact ⟨r, v, _, hstep', hrun', by simp [hp]⟩

end Cellos.Lib
