import Cellos.Session.Abi

/-!
# Cellos.Session.Context

Validation of a launch context (`task/child_context.rs`): the immutable record a
preparer writes for a child before it is published.  It carries the argument
vector, the working directory, the environment and at most nine grants, one a slot:
0 to 3 are the stdio endpoints, 4 the working-directory grant of VFS, 5 the
completion writer, 8 the input frontend.

The digest and the UTF-8 test are the platform's; everything here holds for any.
-/

namespace Cellos.Session

open Lib Reader

/-- Functions of the kernel the session layer calls and never looks into. -/
structure Platform where
  sha256 : Bytes → Bytes
  utf8 : Bytes → Bool

/-- `service::INPUT`. -/
def serviceInput : Nat := 3
/-- `service::VFS`. -/
def serviceVfs : Nat := 1

/-- One grant record of a context. -/
structure Grant where
  (kind rights slot ownerService : Nat)
  object : Ref
  wire : Bytes

/-- A validated context; `argv` and `cwd` are byte ranges of the record. -/
structure Context where
  (argv cwd : Nat × Nat)
  grants : List (Option Grant)
  digest : Bytes

/-- The grant of a slot. -/
def Context.grant (c : Context) (slot : Nat) : Option Grant := (c.grants[slot]?).join

/-- The bytes of a range. -/
def slice (bytes : Bytes) (range : Nat × Nat) : Bytes :=
  (bytes.drop range.1).take (range.2 - range.1)

/-- `split_inclusive(|b| *b == 0)`: the pieces that end after a zero byte. -/
def splitInclusive : Bytes → Bytes → List Bytes
  | [], [] => []
  | piece, [] => [piece.reverse]
  | piece, b :: bytes =>
    if b = 0 then (b :: piece).reverse :: splitInclusive [] bytes
    else splitInclusive (b :: piece) bytes

/-- The structured argument carrier: `\0argv1\0` and zero-terminated arguments. -/
def argvOk (platform : Platform) (argv : Bytes) : Bool := argv.isEmpty ||
    ([0, 97, 114, 103, 118, 49, 0].isPrefixOf argv && argv.getLast? == some 0 &&
      (splitInclusive [] (argv.drop 7)).all fun arg =>
        arg.getLast? == some 0 && platform.utf8 arg.dropLast)

/-- The environment: `count` entries with strictly ascending keys. -/
def readEnv (platform : Platform) : Nat → Option Bytes → Reader Unit
  | 0, _ => finish
  | count + 1, previous => do
    let keyLen ← u16
    let valueLen ← u16
    let key ← take keyLen
    let value ← take valueLen
    check (key ≠ [] ∧ 0 ∉ key ∧ 61 ∉ key ∧ 0 ∉ value ∧ platform.utf8 key ∧ platform.utf8 value
      ∧ previous.all fun p => p < key) .malformed
    readEnv platform count (some key)

/-- What a grant of each kind must look like; `none` is a record that is accepted. -/
def grantRefusal (kind rights slot ownerService : Nat) : Option Status :=
  if kind = 1 then
    if (slot ≤ 3 ∨ slot = 5) ∧ ownerService = 0 ∧ rights < 32
        ∧ rights % 4 = (if slot = 0 ∨ slot = 3 then 1 else 2) then none
    else some .malformed
  else if kind = 2 then
    if slot = 4 ∧ rights = 0 ∧ ownerService = serviceVfs then none else some .malformed
  else if 3 ≤ kind ∧ kind ≤ 5 then some .unsupported
  else if kind = kindInputFrontend then
    if slot = slotFrontend ∧ rights = 0 ∧ ownerService = serviceInput then none
    else some .malformed
  else some .malformed

/-- One 40-byte grant record. -/
def readGrant (wire : Bytes) : Except Status (Nat × Nat × Nat × Nat × Nat × Ref × Nat) := parse (do
    return (← u16, ← u16, ← u16, ← u16, ← u64, ← reference, ← u64)) wire

/-- The grants: one a slot, each of a known kind. -/
def readGrants : Nat → List (Option Grant) → Reader (List (Option Grant))
  | 0, grants => return grants
  | count + 1, grants => do
    let wire ← take 40
    let (kind, rights, slot, reserved, ownerService, object, tail) ← readGrant wire
    check (reserved = 0 ∧ tail = 0 ∧ object.id ≠ 0 ∧ object.generation ≠ 0
      ∧ slot < contextMaxGrants ∧ (grants[slot]?).join = none) .malformed
    match grantRefusal kind rights slot ownerService with
    | some status => throw status
    | none =>
      readGrants count (grants.set slot (some { kind, rights, slot, ownerService, object, wire }))

/-- `child_context::validate`. -/
def validate (platform : Platform) (bytes : Bytes) (operation : Ref) : Except Status Context := do
  require (48 ≤ bytes.length ∧ bytes.length ≤ contextMax) .malformed
  parse (do
    check ((← u32) = 1) .unsupportedVersion
    check ((← u32) = bytes.length) .malformed
    zero
    let argvLen ← u32
    let envCount ← u16
    let grantCount ← u16
    let cwdLen ← u32
    let envLen ← u32
    zero
    check ((← reference) = operation ∧ argvLen ≤ 512 ∧ cwdLen ≤ 4096 ∧ envCount ≤ 64
      ∧ envLen ≤ 4096 ∧ grantCount ≤ contextMaxGrants) .malformed
    let argv ← take argvLen
    check (argvOk platform argv) .malformed
    let cwd ← take cwdLen
    check (0 ∉ cwd) .malformed
    (readEnv platform envCount none).run' (← take envLen)
    let grants ← readGrants grantCount (List.replicate contextMaxGrants none)
    finish
    check (cwdLen = 0 ∨ (grants[4]?).join ≠ none) .denied
    return {
      argv := (48, 48 + argvLen)
      cwd := (48 + argvLen, 48 + argvLen + cwdLen)
      grants
      digest := platform.sha256 bytes }) bytes

/-- `stdio_projection`: the four stdio grant records. -/
def Context.stdioProjection (c : Context) : Except Status Bytes := do
  let g0 ← demand (c.grant 0) .denied
  let g1 ← demand (c.grant 1) .denied
  let g2 ← demand (c.grant 2) .denied
  let g3 ← demand (c.grant 3) .denied
  return g0.wire ++ g1.wire ++ g2.wire ++ g3.wire

/-! ## what is accepted is well formed -/

/-- Every grant of a context stands in its own slot and has the shape of its kind. -/
def Context.Sound (c : Context) : Prop := ∀ slot g, c.grant slot = some g →
    g.slot = slot ∧ grantRefusal g.kind g.rights slot g.ownerService = none

/-- Every result a reader can return satisfies `Q`. -/
def Reader.Returns {α : Type} (r : Reader α) (Q : α → Prop) : Prop :=
  ∀ bytes a rest, r.run bytes = .ok (a, rest) → Q a

namespace Reader.Returns

variable {α β : Type} {Q : β → Prop} {b : β}

theorem bind (hx : Returns x P) (h : ∀ a, P a → Returns (f a) Q) : Returns (x >>= f) Q := by
  intro bytes b rest hrun
  rw [StateT.run_bind, bind_eq_ok] at hrun
  obtain ⟨⟨a, rest'⟩, hx', hf⟩ := hrun
  exact h a (hx bytes a rest' hx') rest' b rest hf

/-- A read whose result does not matter. -/
theorem skip (h : ∀ a, Returns (f a) Q) : Returns (x >>= f) Q :=
  bind (P := fun _ => True) (fun _ _ _ _ => trivial) fun a _ => h a

theorem pure (h : Q b) : Returns (Pure.pure b : Reader β) Q := by
  intro bytes b' rest hrun
  cases hrun
  exact h

theorem parse {r : Reader β} {bytes : Bytes} (h : Returns r Q)
    (hparse : parse r bytes = .ok b) : Q b := by
  have hreturns : Returns (do let a ← r; finish; return a : Reader β) Q :=
    bind h fun _ hb => skip fun _ => pure hb
  unfold Reader.parse at hparse
  rw [StateT.run'_eq] at hparse
  cases hrun : (do let a ← r; finish; return a : Reader β).run bytes with
  | error =>
    rw [hrun] at hparse
    cases hparse
  | ok out =>
    rw [hrun] at hparse
    cases hparse
    exact hreturns bytes out.1 out.2 hrun

end Reader.Returns

/-- The grants read so far stand in their own slots. -/
theorem returns_readGrants (count : Nat) (grants : List (Option Grant))
    (h : ∀ slot g, (grants[slot]?).join = some g →
      g.slot = slot ∧ grantRefusal g.kind g.rights slot g.ownerService = none) :
    (readGrants count grants).Returns fun grants => ∀ slot g, (grants[slot]?).join = some g →
      g.slot = slot ∧ grantRefusal g.kind g.rights slot g.ownerService = none := by
  induction count generalizing grants with
  | zero => exact .pure h
  | succ _ ih =>
    refine .skip fun wire => .skip fun (kind, rights, slot, _, ownerService, object, _) =>
      .skip fun _ => ?_
    split
    · intro bytes b rest hrun
      cases hrun
    next haccepted =>
    refine ih _ fun slot' g hg => ?_
    rw [List.getElem?_set] at hg
    split at hg
    · next heq =>
      split at hg
      · cases hg
        exact ⟨heq, heq ▸ haccepted⟩
      · cases hg
    · exact h slot' g hg

/-- **A validated context is well formed.** -/
theorem validate_sound (h : validate platform bytes operation = .ok c) : c.Sound := by
  unfold validate at h
  rw [bind_eq_ok] at h
  obtain ⟨-, -, hparse⟩ := h
  refine Returns.parse ?_ hparse
  -- the reads and checks before the grants
  iterate 19 refine .skip fun _ => ?_
  refine .bind (returns_readGrants _ _ fun slot g hg => ?_) fun grants hgrants =>
    .skip fun _ => .skip fun _ => .pure hgrants
  rw [List.getElem?_replicate] at hg
  split at hg <;> cases hg

end Cellos.Session
