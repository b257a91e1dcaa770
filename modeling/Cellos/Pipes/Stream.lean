import Cellos.Session.State

/-!
# Cellos.Pipes.Stream

A ring is a queue of bytes (`Pipe::write`, `Pipe::read` and their callers in `task/pipe.rs`).

`Pipe.content` reads the ring from its head.  A write appends what it accepts, a read takes from
the front, a flush empties the ring, and nothing else touches the content (`course_perform`).
So in every run the bytes that were accepted since the last flush are the bytes that were
returned since then, followed by the content (`ring_is_queue`).
-/

namespace Cellos.Pipes.Stream

open Lib Function List

/-! ## the content of a ring -/

/-- The unread bytes, oldest first. -/
def content (p : Pipe) : List UInt8 := window p.buffer p.head p.len

/-- Bytes stored behind the last entry are appended to the window. -/
theorem window_storeAt {buffer : List UInt8} {head len : Nat} {bytes : List UInt8}
    (h : len + bytes.length ≤ buffer.length) :
    window (storeAt buffer (head + len) bytes) head (len + bytes.length) =
      window buffer head len ++ bytes := by
  induction bytes generalizing buffer len with
  | nil => simp [storeAt]
  | cons byte bytes ih =>
    rw [length_cons] at h
    have hfits : len + 1 + bytes.length ≤
        (buffer.set ((head + len) % buffer.length) byte).length := by
      rw [length_set]
      omega
    have hrest := ih hfits
    rw [window_push (by omega), append_assoc, singleton_append] at hrest
    rw [length_cons, ← hrest, Nat.add_right_comm len 1]
    rfl

theorem content_write (p : Pipe) (src : List UInt8) :
    content (p.write src).2 = content p ++ src.take (p.write src).1 := by
  have hcount : (src.take (p.write src).1).length = (p.write src).1 := by
    simp [Pipe.write]
  have hfits : p.len + (src.take (p.write src).1).length ≤ p.buffer.length := by
    have := p.len_le
    rw [hcount]
    simp only [Pipe.write, Pipe.capacity]
    omega
  have hstore : window _ p.head _ = _ := window_storeAt hfits
  rwa [hcount] at hstore

theorem content_read (p : Pipe) (n : Nat) : (p.read n).1 ++ content (p.read n).2 = content p := by
  rw [content, content, ← Nat.add_sub_cancel' (Nat.min_le_left p.len n), window_add]
  rfl

/-! ## calls -/

/-- What moves bytes through a ring, and what opens and closes its ends meanwhile. -/
inductive Call where
  | tryWrite (handle : PipeHandle) (src : List UInt8) (tid : Nat)
  | tryRead (handle : PipeHandle) (n tid : Nat)
  | sessionWrite (handle : PipeHandle) (src : List UInt8)
  | sessionRead (handle : PipeHandle) (n : Nat)
  | sessionFlush (handle : PipeHandle)
  | duplicateEnd (handle : PipeHandle)
  | closeEnd (handle : PipeHandle) (tid : Nat)

/-- The bytes a call moved through the ring it names. -/
structure Moved where
  ring : Nat
  accepted : List UInt8 := []
  returned : List UInt8 := []
  flushed : Bool := false

def Call.perform (w : Session.World) : Call → Moved × Session.World
  | .tryWrite handle src tid =>
    match Pipes.tryWrite w.rings handle src tid with
    | some (.wrote n _, rings) =>
      ({ ring := handle.pipe, accepted := src.take n }, { w with rings })
    | some (_, rings) => ({ ring := handle.pipe }, { w with rings })
    | none => ({ ring := handle.pipe }, w)
  | .tryRead handle n tid =>
    match Pipes.tryRead w.rings handle n tid with
    | some (.read bytes _, rings) => ({ ring := handle.pipe, returned := bytes }, { w with rings })
    | some (_, rings) => ({ ring := handle.pipe }, { w with rings })
    | none => ({ ring := handle.pipe }, w)
  | .sessionWrite handle src =>
    match w.sessionWrite handle src with
    | some (.wrote n, w) => ({ ring := handle.pipe, accepted := src.take n }, w)
    | some (_, w) => ({ ring := handle.pipe }, w)
    | none => ({ ring := handle.pipe }, w)
  | .sessionRead handle n =>
    match w.sessionRead handle n with
    | some (.read bytes, w) => ({ ring := handle.pipe, returned := bytes }, w)
    | some (_, w) => ({ ring := handle.pipe }, w)
    | none => ({ ring := handle.pipe }, w)
  | .sessionFlush handle => ({ ring := handle.pipe, flushed := true }, w.sessionFlush handle)
  | .duplicateEnd handle =>
    ({ ring := handle.pipe }, { w with rings := (Pipes.duplicateEnd w.rings handle).2 })
  | .closeEnd handle tid =>
    ({ ring := handle.pipe }, { w with rings := Pipes.closeEnd w.rings handle tid })

def step (w : Session.World) (call : Call) : Option (Moved × Session.World) := some (call.perform w)

/-- The moves of a ring since its last flush. -/
def sinceFlush (ring : Nat) (rs : List Moved) : List Moved :=
  (rs.filter fun r => r.ring = ring).foldl
    (fun since r => if r.flushed then [] else since ++ [r]) []

/-- What a call does to the content of the ring it names. -/
def Flows (r : Moved) (p p' : Pipe) : Prop :=
  if r.flushed then content p' = [] else r.returned ++ content p' = content p ++ r.accepted

/-- Every ring that is there was there before; its content flowed, or it is another one. -/
def Course (pipes : PipeMap) (r : Moved) (pipes' : PipeMap) : Prop :=
  ∀ ring p', pipes' ring = some p' →
    ∃ p, pipes ring = some p ∧ if r.ring = ring then Flows r p p' else p' = p

namespace Course

theorem refl (id : Nat) : Course pipes { ring := id } pipes := by
  intro ring p' hp'
  exact ⟨p', hp', by simp [Flows]⟩

/-- The named ring changes, or it goes. -/
theorem update {next : Option Pipe} (hp : pipes r.ring = some p)
    (h : ∀ q, next = some q → Flows r p q) : Course pipes r (update pipes r.ring next) := by
  intro ring p' hp'
  by_cases hring : ring = r.ring
  · subst hring
    rw [update_self] at hp'
    exact ⟨p, hp, by simpa using h p' hp'⟩
  · rw [update_of_ne hring] at hp'
    exact ⟨p', hp', by simp [Ne.symm hring]⟩

theorem put (hp : pipes r.ring = some p) (h : Flows r p q) :
    Course pipes r (Function.update pipes r.ring (some q)) :=
  update hp fun _ hq => Option.some.inj hq ▸ h

end Course

@[simp] theorem content_retain (p : Pipe) (side : PipeEnd) (tid : Nat) :
    content (p.retain side tid) = content p := by cases side <;> rfl

@[simp] theorem content_setEnds (p : Pipe) (n : Nat) (side : PipeEnd) :
    content (p.setEnds n side) = content p := by cases side <;> rfl

/-- **Step lemma**: a call moves bytes through its ring in order. -/
theorem course_perform (w : Session.World) (call : Call) :
    Course w.rings (call.perform w).1 (call.perform w).2.rings := by
  cases call with
  | tryWrite handle src tid =>
    simp only [Call.perform, tryWrite]
    cases hp : w.rings handle.pipe with
    | none => exact .refl _
    | some p =>
      dsimp only
      split_ifs
      · exact .put hp (by simp [Flows])
      · exact .refl _
      · exact .put hp (content_write p src)
  | tryRead handle n tid =>
    simp only [Call.perform, tryRead]
    cases hp : w.rings handle.pipe with
    | none => exact .refl _
    | some p =>
      dsimp only
      split_ifs
      · exact .put hp ((content_read p n).trans (append_nil _).symm)
      · exact .put hp (by simp [Flows])
      · exact .refl _
  | sessionWrite handle src =>
    simp only [Call.perform, Session.World.sessionWrite]
    cases hp : w.rings handle.pipe with
    | none => exact .refl _
    | some p =>
      dsimp only [Option.map]
      split_ifs
      · exact .refl _
      · exact .refl _
      · exact .put hp (content_write p src)
  | sessionRead handle n =>
    simp only [Call.perform, Session.World.sessionRead]
    cases hp : w.rings handle.pipe with
    | none => exact .refl _
    | some p =>
      dsimp only [Option.map]
      split_ifs
      · exact .put hp ((content_read p n).trans (append_nil _).symm)
      · exact .refl _
      · exact .refl _
  | sessionFlush handle =>
    simp only [Call.perform, Session.World.sessionFlush]
    cases hp : w.rings handle.pipe with
    | none =>
      intro ring p' hp'
      have hne : handle.pipe ≠ ring := by
        rintro rfl
        simp [hp] at hp'
      exact ⟨p', hp', by simp [hne]⟩
    | some p => exact .put hp (by simp [Flows, content, window])
  | duplicateEnd handle =>
    simp only [Call.perform, duplicateEnd]
    split
    · exact .refl _
    · next hp => exact .put hp (by simp [Flows])
  | closeEnd handle tid =>
    simp only [Call.perform, closeEnd]
    split
    · exact .refl _
    next p hp =>
    refine .update hp fun q hq => ?_
    split at hq
    · contradiction
    · cases hq
      simp [Flows, Pipe.dropEnd]

/-! ## runs -/

/-- **A ring is a queue**: after any calls on a new ring, what was accepted since its last flush is
what was returned since then followed by what the ring holds, which is never more than its
capacity. -/
theorem ring_is_queue (w₀ : Session.World) (capacity : Nat) (calls : List Call) :
    ∃ rs w, run step (w₀.createRing capacity) calls = some (rs, w) ∧
      ∀ p, w.rings w₀.nextRing = some p →
        let since := sinceFlush w₀.nextRing rs
        since.flatMap (·.accepted) = since.flatMap (·.returned) ++ content p ∧
          (content p).length = p.len ∧ p.len ≤ p.capacity := by
  obtain ⟨rs, w, hrun, -⟩ : ∃ rs w, run step (w₀.createRing capacity) calls = some (rs, w) ∧ True :=
    run_total (fun _ _ _ _ => ⟨_, _, rfl, trivial⟩) trivial
  refine ⟨rs, w, hrun, fun p hp => ⟨?_, length_window, p.len_le⟩⟩
  refine run_history (H := fun rs w => ∀ p, w.rings w₀.nextRing = some p →
    (sinceFlush w₀.nextRing rs).flatMap (·.accepted) =
      (sinceFlush w₀.nextRing rs).flatMap (·.returned) ++ content p)
    (fun rs w call r w' h hstep p' hp' => ?_) hrun (fun p hp => ?_) p hp
  · have hcourse : Course w.rings r w'.rings := by
      have := course_perform w call
      rwa [Option.some.inj hstep] at this
    obtain ⟨p, hp, hflows⟩ := hcourse _ p' hp'
    have hold := h p hp
    simp only [sinceFlush, filter_append, foldl_append] at hold ⊢
    split at hflows
    · next hring =>
      unfold Flows at hflows
      split at hflows
      · next hflush => simp [hring, hflush, hflows]
      · next hflush => simp [hring, hflush, hold, hflows]
    · next hring => simp [hring, hold, hflows]
  · cases (update_self ..).symm.trans hp
    rfl

end Cellos.Pipes.Stream
