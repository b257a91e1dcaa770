import Mathlib

/-!
# Cellos.Lib.Rows

Lists used as tables of rows.

A kernel table is a vector or an ordered map that is searched from the front:
`iter().find(..)`, `iter_mut().find(..)` and `position(..)` followed by
`remove(..)` all act on the first row that matches.  `updateFirst` is the update
through `find_mut`; the search is `List.find?` and the removal is `List.eraseP`.

The lemmas say where the rows of the new table come from and which rows of the old
one survive.  `List.Forall₂ R` relates a table to its next version row by row.
-/

namespace Cellos.Lib

open List

variable {α β : Type*} {p q : α → Bool} {f g : α → α} {l : List α} {a b : α} {key : α → β} {i : Nat}
  {P : α → Prop} {k : β} {R : α → α → Prop} {step : β → α → β}

/-- Rewrite the first row that satisfies `p`. -/
def updateFirst (p : α → Bool) (f : α → α) : List α → List α
  | [] => []
  | a :: l => if p a then f a :: l else a :: updateFirst p f l

theorem updateFirst_cons (p : α → Bool) (f : α → α) (a : α) (l : List α) :
    updateFirst p f (a :: l) = if p a then f a :: l else a :: updateFirst p f l := rfl

theorem updateFirst_of_none (h : l.find? p = none) : updateFirst p f l = l := by
  induction l with
  | nil => rfl
  | cons c l ih =>
    rw [find?_cons] at h
    split at h
    · contradiction
    next hc => rw [updateFirst_cons, if_neg (by simp [hc]), ih h]

theorem updateFirst_append_cons {before after : List α} (hbefore : ∀ c ∈ before, (!p c) = true)
    (ha : p a = true) : updateFirst p f (before ++ a :: after) = before ++ f a :: after := by
  induction before with
  | nil => exact if_pos ha
  | cons c before ih =>
    obtain ⟨hc, hbefore⟩ := forall_mem_cons.mp hbefore
    rw [cons_append, updateFirst_cons, if_neg (by simpa using hc), ih hbefore, cons_append]

theorem mem_updateFirst (h : b ∈ updateFirst p f l) :
    b ∈ l ∨ ∃ a, l.find? p = some a ∧ b = f a := by
  cases hfind : l.find? p with
  | none => exact .inl (updateFirst_of_none hfind ▸ h)
  | some a =>
    obtain ⟨ha, before, after, rfl, hbefore⟩ := find?_eq_some_iff_append.mp hfind
    rw [updateFirst_append_cons hbefore ha] at h
    grind

/-! ## a row at the end -/

theorem forall_mem_concat (h : ∀ x ∈ l, P x) (ha : P a) : ∀ x ∈ l ++ [a], P x :=
  forall_mem_append.mpr ⟨h, forall_mem_singleton.mpr ha⟩

theorem pairwise_concat (h : l.Pairwise R) (ha : ∀ x ∈ l, R x a) : (l ++ [a]).Pairwise R := by
  refine pairwise_append.mpr ⟨h, pairwise_singleton _ _, fun x hx y hy => ?_⟩
  rw [mem_singleton.mp hy]
  exact ha x hx

theorem nodup_map_concat {k : α → β} (h : (l.map k).Nodup) (ha : ∀ x ∈ l, k x ≠ k a) :
    ((l ++ [a]).map k).Nodup :=
  pairwise_map.mpr (pairwise_concat (pairwise_map.mp h) ha)

/-! ## the first row that matches -/

/-- Only the found row is rewritten; the others stay. -/
theorem mem_updateFirst_of_mem (f : α → α) (h : a ∈ l) :
    a ∈ updateFirst p f l ∨ l.find? p = some a := by
  cases hfind : l.find? p with
  | none => exact .inl ((updateFirst_of_none hfind).symm ▸ h)
  | some c =>
    obtain ⟨hc, before, after, rfl, hbefore⟩ := find?_eq_some_iff_append.mp hfind
    rw [updateFirst_append_cons hbefore hc]
    grind

/-- A column the rewriting keeps is the same column afterwards. -/
theorem map_updateFirst (g : α → β) (h : ∀ a, l.find? p = some a → g (f a) = g a) :
    (updateFirst p f l).map g = l.map g := by
  cases hfind : l.find? p with
  | none => rw [updateFirst_of_none hfind]
  | some a =>
    obtain ⟨ha, before, after, rfl, hbefore⟩ := find?_eq_some_iff_append.mp hfind
    rw [updateFirst_append_cons hbefore ha, map_append, map_append, map_cons, map_cons, h a hfind]

/-- Only what the update does to the found row matters. -/
theorem updateFirst_congr (h : ∀ a, l.find? p = some a → f a = g a) :
    updateFirst p f l = updateFirst p g l := by
  cases hfind : l.find? p with
  | none => rw [updateFirst_of_none hfind, updateFirst_of_none hfind]
  | some a =>
    obtain ⟨ha, before, after, rfl, hbefore⟩ := find?_eq_some_iff_append.mp hfind
    rw [updateFirst_append_cons hbefore ha, updateFirst_append_cons hbefore ha, h a hfind]

theorem updateFirst_eq_self (h : ∀ a, l.find? p = some a → f a = a) : updateFirst p f l = l := by
  simpa using map_updateFirst id h

@[simp] theorem length_updateFirst (p : α → Bool) (f : α → α) (l : List α) :
    (updateFirst p f l).length = l.length := by
  simpa using congrArg length (map_updateFirst (fun _ => ()) fun _ _ => rfl)

/-- Updates that commute on a row and do not touch each other's search commute. -/
theorem updateFirst_comm (hp : ∀ a, p (g a) = p a)
    (hq : ∀ a, q (f a) = q a) (hfg : ∀ a, f (g a) = g (f a)) (l : List α) :
    updateFirst p f (updateFirst q g l) = updateFirst q g (updateFirst p f l) := by
  induction l with
  | nil => rfl
  | cons a l ih =>
    by_cases ha : p a = true <;> by_cases hb : q a = true
    · simp only [updateFirst_cons, ha, hb, hp, hq, hfg, if_true]
    · simp only [updateFirst_cons, ha, hb, hq, if_true, if_false, Bool.false_eq_true]
    · simp only [updateFirst_cons, ha, hb, hp, if_true, if_false, Bool.false_eq_true]
    · simp only [updateFirst_cons, ha, hb, ih, if_false, Bool.false_eq_true]

theorem updateFirst_undo (h : ∀ a, l.find? p = some a → p (f a) = true ∧ g (f a) = a) :
    updateFirst p g (updateFirst p f l) = l := by
  cases hfind : l.find? p with
  | none => rw [updateFirst_of_none hfind, updateFirst_of_none hfind]
  | some a =>
    obtain ⟨hpf, hgf⟩ := h a hfind
    obtain ⟨ha, before, after, rfl, hbefore⟩ := find?_eq_some_iff_append.mp hfind
    rw [updateFirst_append_cons hbefore ha, updateFirst_append_cons hbefore hpf, hgf]

theorem find?_updateFirst_self (h : l.find? p = some a) (hf : p (f a) = true) :
    (updateFirst p f l).find? p = some (f a) := by
  obtain ⟨ha, before, after, rfl, hbefore⟩ := find?_eq_some_iff_append.mp h
  rw [updateFirst_append_cons hbefore ha]
  exact find?_eq_some_iff_append.mpr ⟨hf, before, after, rfl, hbefore⟩

theorem find?_updateFirst_of_ne (h : ∀ a, l.find? p = some a → q (f a) = q a)
    (hne : ∀ a, l.find? p = some a → q a = false) : (updateFirst p f l).find? q = l.find? q := by
  cases hfind : l.find? p with
  | none => rw [updateFirst_of_none hfind]
  | some a =>
    have hqa : q a = false := hne a hfind
    have hqf : q (f a) = false := (h a hfind).trans hqa
    obtain ⟨ha, before, after, rfl, hbefore⟩ := find?_eq_some_iff_append.mp hfind
    rw [updateFirst_append_cons hbefore ha, find?_append, find?_append,
      find?_cons_of_neg (by simp [hqf]), find?_cons_of_neg (by simp [hqa])]

theorem find?_updateFirst [DecidableEq β] {j : β}
    (hf : ∀ a, l.find? (fun c => key c == j) = some a → key (f a) = j) (k : β) :
    (updateFirst (fun c => key c == j) f l).find? (fun c => key c == k) =
      (l.find? fun c => key c == k).map fun a => if key a = j then f a else a := by
  have hkey {k : β} {a : α} (h : l.find? (fun c => key c == k) = some a) : key a = k := by
    simpa using find?_some h
  by_cases hk : k = j
  · subst hk
    cases hfind : l.find? fun c => key c == k with
    | none => rw [updateFirst_of_none hfind, hfind, Option.map_none]
    | some a =>
      rw [find?_updateFirst_self hfind (by simpa using hf a hfind), Option.map_some,
        if_pos (hkey hfind)]
  · rw [find?_updateFirst_of_ne (fun a ha => by rw [hf a ha, hkey ha])
      fun a ha => by simpa [hkey ha] using Ne.symm hk]
    cases hfind : l.find? fun c => key c == k with
    | none => rfl
    | some a => rw [Option.map_some, if_neg (hkey hfind ▸ hk)]

theorem perm_cons_eraseP (h : l.find? p = some a) : l.Perm (a :: l.eraseP p) := by
  obtain ⟨ha, before, after, rfl, hbefore⟩ := find?_eq_some_iff_append.mp h
  rw [eraseP_append_right _ (by simpa using hbefore), eraseP_cons_of_pos ha]
  exact perm_middle

theorem updateFirst_perm (f : α → α) (h : l.find? p = some a) :
    (updateFirst p f l).Perm (f a :: l.eraseP p) := by
  obtain ⟨ha, before, after, rfl, hbefore⟩ := find?_eq_some_iff_append.mp h
  rw [updateFirst_append_cons hbefore ha, eraseP_append_right _ (by simpa using hbefore),
    eraseP_cons_of_pos ha]
  exact perm_middle

theorem apply_mem_updateFirst (f : α → α) (h : l.find? p = some a) : f a ∈ updateFirst p f l :=
  (updateFirst_perm f h).mem_iff.mpr mem_cons_self

theorem countP_updateFirst (f : α → α) (h : l.find? p = some a) :
    (updateFirst p f l).countP q + (if q a then 1 else 0) =
      l.countP q + (if q (f a) then 1 else 0) := by
  rw [(updateFirst_perm f h).countP_eq q, (perm_cons_eraseP h).countP_eq q, countP_cons,
    countP_cons]
  omega

theorem find?_filter_of_keep (h : l.find? q = some a) (hkeep : p a = true) :
    (l.filter p).find? q = some a := by
  obtain ⟨ha, before, after, rfl, hbefore⟩ := find?_eq_some_iff_append.mp h
  rw [filter_append, filter_cons_of_pos hkeep]
  refine find?_eq_some_iff_append.mpr ⟨ha, _, _, rfl, fun b hb => ?_⟩
  exact hbefore b (mem_of_mem_filter hb)

theorem find?_eraseIdx_of_neg (h : l.find? q = some a)
    (hi : l[i]? = some b) (hb : q b = false) : (l.eraseIdx i).find? q = some a := by
  induction l generalizing i with
  | nil => contradiction
  | cons c l ih =>
    cases i with
    | zero =>
      cases hi
      rwa [find?_cons_of_neg (by simp [hb])] at h
    | succ =>
      rw [eraseIdx_cons_succ]
      by_cases hc : q c = true
      · rw [find?_cons_of_pos hc] at h ⊢
        exact h
      · rw [find?_cons_of_neg hc] at h ⊢
        exact ih h hi

/-- Rows with pairwise different keys are found by their keys. -/
theorem find?_key_of_nodup [DecidableEq β] (h : (l.map key).Nodup) (ha : a ∈ l) :
    l.find? (fun c => key c == key a) = some a := by
  cases hf : l.find? (fun c => key c == key a) with
  | none =>
    have := find?_eq_none.mp hf a ha
    simp at this
  | some c =>
    have hkey : key c = key a := by simpa using find?_some hf
    rw [inj_on_of_nodup_map h (mem_of_find?_eq_some hf) ha hkey]

/-- What holds of the row found under each key holds of every row, if the keys differ. -/
theorem forall_mem_of_find [DecidableEq β] {keys : List β}
    (hkeys : l.map key = keys) (hnodup : keys.Nodup)
    (h : ∀ k ∈ keys, ∀ a, l.find? (fun c => key c == k) = some a → P a) : ∀ a ∈ l, P a := by
  subst hkeys
  exact fun a ha => h (key a) (mem_map_of_mem ha) a (find?_key_of_nodup hnodup ha)

/-- With pairwise different keys, writing at an index is writing through the key. -/
theorem modify_eq_updateFirst [DecidableEq β] (f : α → α)
    (h : (l.map key).Nodup) (hi : l[i]? = some a) :
    l.modify i f = updateFirst (fun c => key c == key a) f l := by
  induction l generalizing i with
  | nil => contradiction
  | cons c l ih =>
    cases i with
    | zero =>
      cases hi
      rw [updateFirst_cons, if_pos (by simp), modify_zero_cons]
    | succ =>
      rw [map_cons, nodup_cons] at h
      have hne : key c ≠ key a := fun e =>
        h.1 (e ▸ mem_map_of_mem (mem_of_getElem? hi))
      rw [updateFirst_cons, if_neg (by simpa using hne), modify_succ_cons, ih h.2 hi]

/-- Taking out the first row that carries `k` takes `k` out of the table, when no
two rows carry the same. -/
theorem not_mem_filterMap_eraseP [DecidableEq β] {g : α → Option β}
    (h : (l.filterMap g).Nodup) (hp : ∀ c, p c = true ↔ g c = some k) :
    k ∉ (l.eraseP p).filterMap g := by
  cases hfind : l.find? p with
  | none =>
    rw [find?_eq_none] at hfind
    rw [eraseP_of_forall_not hfind]
    intro hmem
    obtain ⟨c, hc, hg⟩ := mem_filterMap.mp hmem
    exact hfind c hc ((hp c).mpr hg)
  | some a =>
    have hperm := (perm_cons_eraseP hfind).filterMap g
    rw [filterMap_cons_some ((hp a).mp (find?_some hfind))] at hperm
    exact (nodup_cons.mp (hperm.nodup_iff.mp h)).1

theorem not_mem_filterMap_eraseIdx {g : α → Option β}
    (h : (l.filterMap g).Nodup) (hi : l[i]? = some a) (hg : g a = some k) :
    k ∉ (l.eraseIdx i).filterMap g := by
  obtain ⟨hlt, rfl⟩ := List.getElem?_eq_some_iff.mp hi
  have hperm := (getElem_cons_eraseIdx_perm hlt).filterMap g
  rw [filterMap_cons_some hg] at hperm
  exact (nodup_cons.mp (hperm.nodup_iff.mpr h)).1

/-- A row without a value gets one that no other row has. -/
theorem nodup_filterMap_set {g : α → Option β} (h : (l.filterMap g).Nodup)
    (hi : i < l.length) (hg : g a = some k) (hk : ∀ c ∈ l, g c ≠ some k) :
    ((l.set i a).filterMap g).Nodup := by
  have hperm := getElem_cons_eraseIdx_perm (l := l.set i a) (by simpa using hi)
  rw [getElem_set_self, eraseIdx_set_eq] at hperm
  rw [← (hperm.filterMap g).nodup_iff, filterMap_cons_some hg, nodup_cons]
  have hsub := eraseIdx_sublist l i
  constructor
  · intro hmem
    obtain ⟨c, hc, hgc⟩ := mem_filterMap.mp hmem
    exact hk c (hsub.subset hc) hgc
  · exact h.sublist (hsub.filterMap g)

/-! ## tables row by row -/

section Pointwise

variable {R : α → α → Prop} {l' : List α}

/-- An update changes the found row and keeps every other. -/
theorem forall₂_updateFirst (hrefl : ∀ a, R a a) (h : ∀ a, l.find? p = some a → R a (f a)) :
    Forall₂ R l (updateFirst p f l) := by
  cases hfind : l.find? p with
  | none =>
    rw [updateFirst_of_none hfind]
    exact forall₂_same.mpr fun a _ => hrefl a
  | some a =>
    have hR := h a hfind
    obtain ⟨ha, before, after, rfl, hbefore⟩ := find?_eq_some_iff_append.mp hfind
    rw [updateFirst_append_cons hbefore ha]
    exact rel_append (forall₂_same.mpr fun c _ => hrefl c)
      (.cons hR (forall₂_same.mpr fun c _ => hrefl c))

theorem forall₂_map (h : ∀ a ∈ l, R a (f a)) : Forall₂ R l (l.map f) := by
  rw [forall₂_map_right_iff, forall₂_same]
  exact h

variable (h : Forall₂ R l l') {l'' : List α}

include h

theorem exists_old (hb : b ∈ l') : ∃ a ∈ l, R a b := by
  induction h with
  | nil => simp at hb
  | cons hab _ ih =>
    rcases mem_cons.mp hb with rfl | hb
    · exact ⟨_, mem_cons_self, hab⟩
    · obtain ⟨a, ha, hr⟩ := ih hb
      exact ⟨a, mem_cons_of_mem _ ha, hr⟩

theorem exists_new (ha : a ∈ l) : ∃ b ∈ l', R a b := exists_old h.flip ha

theorem map_eq_of_forall₂ {g : α → β} (hg : ∀ a b, R a b → g b = g a) : l'.map g = l.map g := by
  induction h with
  | nil => rfl
  | cons hab _ ih => rw [map_cons, map_cons, hg _ _ hab, ih]

theorem forall₂_and_right (hP : ∀ b ∈ l', P b) : Forall₂ (fun a b => R a b ∧ P b) l l' := by
  induction h with
  | nil => exact .nil
  | cons hab _ ih =>
    rw [forall_mem_cons] at hP
    exact .cons ⟨hab, hP.1⟩ (ih hP.2)

theorem countP_of_forall₂ (hq : ∀ a b, R a b → q b = q a) : l'.countP q = l.countP q := by
  induction h with
  | nil => rfl
  | cons hab _ ih => rw [countP_cons, countP_cons, hq _ _ hab, ih]

theorem countP_le_of_forall₂
    (hq : ∀ a b, R a b → q b = true → q a = true) : l'.countP q ≤ l.countP q := by
  induction h with
  | nil => exact Nat.le_refl _
  | @cons =>
    grind

theorem countP_lt_of_forall₂
    (hq : ∀ a b, R a b → q b = true → q a = true) (ha : a ∈ l) (hqa : q a = true)
    (hlost : ∀ b, R a b → q b = false) : l'.countP q < l.countP q := by
  induction h with
  | nil => cases ha
  | @cons c d l l' hcd hrest ih =>
    rw [countP_cons, countP_cons]
    rcases mem_cons.mp ha with rfl | ha
    · have hle : l'.countP q ≤ l.countP q := countP_le_of_forall₂ hrest hq
      rw [hlost d hcd, hqa]
      simp
      omega
    · grind

theorem find?_of_forall₂ (hq : ∀ a b, R a b → q b = q a)
    (ha : l.find? q = some a) : ∃ b, l'.find? q = some b ∧ R a b := by
  induction h with
  | nil => simp at ha
  | @cons c d _ _ hab _ ih =>
    by_cases hc : q c = true
    · rw [find?_cons_of_pos hc] at ha
      cases ha
      exact ⟨d, find?_cons_of_pos (by rw [hq _ _ hab, hc]), hab⟩
    · rw [find?_cons_of_neg hc] at ha
      obtain ⟨b, hb, hr⟩ := ih ha
      exact ⟨b, by rw [find?_cons_of_neg (by rw [hq _ _ hab]; exact hc), hb], hr⟩

theorem find?_old_of_forall₂
    (hq : ∀ a b, R a b → q b = q a) (hb : l'.find? q = some b) : ∃ a, l.find? q = some a ∧ R a b :=
  find?_of_forall₂ h.flip (fun a b hab => (hq b a hab).symm) hb

omit h

/-- In a table that ascends by a key, what holds of rows in order holds of keys in order. -/
theorem pairwise_of_key_lt {key : α → Nat} (h : l.Pairwise R)
    (hkey : (l.map key).Pairwise (· < ·)) (ha : a ∈ l) (hb : b ∈ l) (hlt : key a < key b) :
    R a b := by
  rw [pairwise_map] at hkey
  obtain ⟨i, hi, rfl⟩ := getElem_of_mem ha
  obtain ⟨j, hj, rfl⟩ := getElem_of_mem hb
  rcases Nat.lt_trichotomy i j with hij | rfl | hij
  · exact pairwise_iff_getElem.mp h i j hi hj hij
  · omega
  · have hgt := pairwise_iff_getElem.mp hkey j i hj hi hij
    omega

theorem forall₂_comp {S T : α → α → Prop}
    (hcomp : ∀ a b c, R a b → S b c → T a c) (h : Forall₂ R l l')
    (h' : Forall₂ S l' l'') : Forall₂ T l l'' := by
  induction h generalizing l'' with
  | nil =>
    cases h'
    exact .nil
  | cons hab _ ih =>
    cases h' with
    | cons hbc h' => exact .cons (hcomp _ _ _ hab hbc) (ih h')

theorem forall₂_refl (h : ∀ a, R a a) : Forall₂ R l l := forall₂_same.mpr fun a _ => h a

theorem forall₂_trans (htrans : ∀ a b c, R a b → R b c → R a c)
    (h : Forall₂ R l l') (h' : Forall₂ R l' l'') : Forall₂ R l l'' :=
  forall₂_comp htrans h h'

end Pointwise

/-- A loop whose turns are related is related from end to end. -/
theorem foldl_related {r : β → β → Prop} (hrefl : ∀ s, r s s)
    (htrans : ∀ s t u, r s t → r t u → r s u) (h : ∀ s, ∀ a ∈ l, r s (step s a)) (s : β) :
    r s (l.foldl step s) := by
  induction l generalizing s with
  | nil => exact hrefl s
  | cons a l ih =>
    exact htrans _ _ _ (h s a mem_cons_self)
      (ih (fun t c hc => h t c (mem_cons_of_mem a hc)) (step s a))

/-- **Loop rule**: if each turn establishes `Q` for its element and no turn takes
it away, `Q` holds for every element after the loop. -/
theorem foldl_established {P : β → Prop} {Q : α → β → Prop}
    {s : β} (hs : P s) (hP : ∀ s a, a ∈ l → P s → P (step s a))
    (hQ : ∀ s a, a ∈ l → P s → Q a (step s a))
    (hkeep : ∀ s a c, a ∈ l → c ∈ l → P s → Q c s → Q c (step s a)) :
    P (l.foldl step s) ∧ ∀ a ∈ l, Q a (l.foldl step s) := by
  induction l generalizing s with
  | nil => exact ⟨hs, by simp⟩
  | cons a l ih =>
    have hmem : ∀ c, c ∈ l → c ∈ a :: l := fun c hc => mem_cons_of_mem a hc
    have hnext : P (step s a) := hP s a mem_cons_self hs
    obtain ⟨hend, hall⟩ := ih hnext (fun s c hc => hP s c (hmem c hc))
      (fun s c hc => hQ s c (hmem c hc))
      (fun s c d hc hd => hkeep s c d (hmem c hc) (hmem d hd))
    refine ⟨hend, fun c hc => ?_⟩
    rcases mem_cons.mp hc with rfl | hc'
    · have hhere : Q c (step s c) := hQ s c mem_cons_self hs
      exact (l.foldlRecOn step (motive := fun t => P t ∧ Q c t) ⟨hnext, hhere⟩
        fun t ht d hd => ⟨hP t d (hmem d hd) ht.1,
          hkeep t d c (hmem d hd) mem_cons_self ht.1 ht.2⟩).2
    · exact hall c hc'

end Cellos.Lib
