import Cellos.Lib.Checks

/-!
# Cellos.Lib.Fallible

Pre- and postconditions for programs that change a state and can fail.

A program is an `EStateM ε σ`: it ends with a value or with an error, and in both cases in a
state, so that what a failing program did before it failed is not forgotten.  A `Triple` has
one postcondition for each of the two ends.

`Keeps R` says how little a program does to the state, for a reflexive and transitive `R`.
The rules for both follow what stands at the head of the program.
-/

namespace Cellos.Lib

variable {ε σ α β : Type} {first : EStateM ε σ β} {rest : β → EStateM ε σ α} {s' : σ} {s : σ}
  {f : σ → σ} {b : β} {c : Prop}

/-- A computation that can fail and has no state. -/
def attempt (x : Except ε α) : EStateM ε σ α := fun s =>
  match x with
  | .ok a => .ok a s
  | .error e => .error e s

@[simp] theorem except_ok_bind (a : α) (f : α → Except ε β) : (Except.ok a >>= f) = f a := rfl

@[simp] theorem except_error_bind (e : ε) (f : α → Except ε β) :
    (Except.error e >>= f) = .error e := rfl

/-! ## running a sequence -/

theorem run_bind_ok (h : first s = .ok b s') : (first >>= rest) s = rest b s' := by
  show EStateM.bind first rest s = _
  unfold EStateM.bind
  rw [h]

theorem run_bind_congr {first' : EStateM ε σ β}
    (h : first s = first' s') : (first >>= rest) s = (first' >>= rest) s' := by
  show EStateM.bind first rest s = EStateM.bind first' rest s'
  unfold EStateM.bind
  rw [h]

/-! ## triples -/

/-- From `P`, the program ends in `Q`, or fails in `E`. -/
def Triple (P : σ → Prop) (prog : EStateM ε σ α) (Q : α → σ → Prop) (E : ε → σ → Prop) : Prop :=
  ∀ s, P s →
    match prog s with
    | .ok a s' => Q a s'
    | .error e s' => E e s'

namespace Triple

variable {P P' : σ → Prop} {Q Q' : α → σ → Prop} {E E' : ε → σ → Prop} {prog : EStateM ε σ α}
  {x : Except ε β} {a : α} {e : ε}

theorem ok (h : Triple P prog Q E) (hs : P s) (hrun : prog s = .ok a s') : Q a s' := by
  have := h s hs
  rwa [hrun] at this

/-- **Consequence**: a triple stays true with a stronger pre- and weaker postconditions. -/
theorem conseq (h : Triple P' prog Q' E') (hP : ∀ s, P s → P' s) (hQ : ∀ a s, Q' a s → Q a s)
    (hE : ∀ e s, E' e s → E e s) : Triple P prog Q E := by
  intro s hs
  have := h s (hP s hs)
  split at this
  · exact hQ _ _ this
  · exact hE _ _ this

theorem pure (h : ∀ s, P s → Q a s) : Triple P (Pure.pure a : EStateM ε σ α) Q E := h

theorem throw (h : ∀ s, P s → E e s) : Triple P (MonadExcept.throw e : EStateM ε σ α) Q E := h

/-- **Sequence**: `R` holds between the two programs. -/
theorem bind {R : β → σ → Prop}
    (hfirst : Triple P first R E) (hrest : ∀ b, Triple (R b) (rest b) Q E) :
    Triple P (first >>= rest) Q E := by
  intro s hs
  have hmid := hfirst s hs
  show match EStateM.bind first rest s with
    | .ok a s' => Q a s'
    | .error e s' => E e s'
  unfold EStateM.bind
  cases hrun : first s with
  | ok b s' =>
    rw [hrun] at hmid
    exact hrest b s' hmid
  | error =>
    rw [hrun] at hmid
    exact hmid

theorem get_bind {rest : σ → EStateM ε σ α}
    (h : ∀ s, P s → Triple (fun t => t = s) (rest s) Q E) : Triple P (get >>= rest) Q E :=
  fun s hs => h s hs s rfl

theorem modify_bind {rest : Unit → EStateM ε σ α}
    (h : Triple (fun t => ∃ s, P s ∧ t = f s) (rest ()) Q E) :
    Triple P (modify f >>= rest) Q E := fun s hs => h (f s) ⟨s, hs, rfl⟩

theorem modify {Q : PUnit → σ → Prop} (h : ∀ s, P s → Q .unit (f s)) :
    Triple P (modify f : EStateM ε σ PUnit) Q E := h

theorem set {t : σ} {Q : PUnit → σ → Prop} (h : ∀ s, P s → Q .unit t) :
    Triple P (MonadStateOf.set t : EStateM ε σ PUnit) Q E := h

/-- A test of the state that nothing after it remembers. -/
theorem get_ite {c : σ → Prop} [DecidablePred c] {yes no : EStateM ε σ α}
    (hyes : Triple P yes Q E) (hno : Triple P no Q E) :
    Triple P (get >>= fun s => if c s then yes else no) Q E := by
  refine get_bind fun a h => ?_
  split
  · exact fun s hs => hyes s (hs ▸ h)
  · exact fun s hs => hno s (hs ▸ h)

theorem attempt_bind (hok : ∀ b, x = .ok b → Triple P (rest b) Q E) (herror : ∀ e s, P s → E e s) :
    Triple P (attempt x >>= rest) Q E := by
  cases x with
  | ok b => exact fun s hs => hok b rfl s hs
  | error e => exact fun s hs => herror e s hs

/-- A computation known to succeed cannot fail. -/
theorem attempt_ok_bind (hx : x = .ok b)
    (h : Triple P (rest b) Q E) : Triple P (attempt x >>= rest) Q E := by
  rw [hx]
  exact h

/-- A computation known to fail ends the program. -/
theorem attempt_error_bind
    (hx : x = .error e) (h : ∀ s, P s → E e s) : Triple P (attempt x >>= rest) Q E := by
  rw [hx]
  exact h

theorem ite [Decidable c] {other : EStateM ε σ α} (hthen : c → Triple P prog Q E)
    (helse : ¬ c → Triple P other Q E) : Triple P (if c then prog else other) Q E := by
  split
  · next h => exact hthen h
  · next h => exact helse h

end Triple

/-! ## frames -/

/-- What the program does to the state is within `R`, whether it ends well or fails. -/
def Keeps (R : σ → σ → Prop) (s : σ) (prog : EStateM ε σ α) : Prop :=
  match prog s with
  | .ok _ s' => R s s'
  | .error _ s' => R s s'

namespace Keeps

variable {R : σ → σ → Prop} {s : σ}

theorem triple {P : σ → Prop} {prog : EStateM ε σ α} (h : ∀ s, P s → Keeps R s prog)
    (hP : ∀ s s', P s → R s s' → P s') : Triple P prog (fun _ => P) (fun _ => P) := by
  intro s hs
  have := h s hs
  unfold Keeps at this
  split at this <;> exact hP s _ hs this

section

variable [Std.Refl R]

theorem pure (a : α) : Keeps R s (Pure.pure a : EStateM ε σ α) := refl_of R s

theorem throw (e : ε) : Keeps R s (MonadExcept.throw e : EStateM ε σ α) := refl_of R s

theorem attempt (x : Except ε α) : Keeps R s (Cellos.Lib.attempt x) := by
  cases x <;> exact refl_of R s

end

theorem set (h : R s s') : Keeps R s (MonadStateOf.set s' : EStateM ε σ PUnit) := h

theorem modify (h : R s (f s)) : Keeps R s (modify f : EStateM ε σ PUnit) := h

theorem ite [Decidable c] {prog other : EStateM ε σ α} (hthen : c → Keeps R s prog)
    (helse : ¬ c → Keeps R s other) : Keeps R s (if c then prog else other) := by
  split
  · next h => exact hthen h
  · next h => exact helse h

theorem bind [IsTrans σ R]
    (hfirst : Keeps R s first) (hrest : ∀ b s', R s s' → Keeps R s' (rest b)) :
    Keeps R s (first >>= rest) := by
  unfold Keeps at hfirst ⊢
  show match EStateM.bind first rest s with
    | .ok _ s' => R s s'
    | .error _ s' => R s s'
  unfold EStateM.bind
  cases hrun : first s with
  | ok b s' =>
    rw [hrun] at hfirst
    have hnext := hrest b s' hfirst
    unfold Keeps at hnext
    dsimp only
    split at hnext <;> exact trans_of R hfirst hnext
  | error =>
    rw [hrun] at hfirst
    exact hfirst

theorem get_bind {rest : σ → EStateM ε σ α} (h : Keeps R s (rest s)) : Keeps R s (get >>= rest) := h

theorem attempt_bind [Std.Refl R] {x : Except ε β}
    (h : ∀ b, x = .ok b → Keeps R s (rest b)) : Keeps R s (Cellos.Lib.attempt x >>= rest) := by
  cases x with
  | ok b => exact h b rfl
  | error => exact refl_of R s

end Keeps

end Cellos.Lib
