import Mathlib

/-!
# Cellos.CSpace.Wire

The records of the capability space as they cross the kernel boundary, with the two
fixed-width little-endian requests (48-byte handle control, 64-byte CSpace control) and
their decoders.

A decoder rejects before it looks at the authority: a short buffer is `small`;
a wrong version, an unknown action, an out-of-range flag or a nonzero field on
an action that takes none is `invalid`.
-/

namespace Cellos.CSpace

/-- Status codes of a control result. -/
inductive ControlStatus where
  | success | denied | stale | wrongType | capacity | exhausted | busy | small
  | invalid | indeterminate | unsupported | admissionCut | quarantined | quiesced | pending
deriving DecidableEq

/-- The kernel singleton, or a cell incarnation. -/
inductive Principal where
  | kernel
  | cell (id generation : Nat)
deriving DecidableEq

/-- What a slot gives access to. -/
inductive ResourceKind where
  | none | bootFSFile | cSpaceAuthority | memoryGrant | ringBuffer | nativeStream
deriving DecidableEq

/-- The 32-byte result header of a control request. -/
structure ControlResultHeader where
  version : Nat
  status : ControlStatus
  (ticket requiredBytes progress : Nat)
deriving DecidableEq

/-- `ControlResultHeader::new`: the version word is always 1. -/
def ControlResultHeader.new (status : ControlStatus) (ticket requiredBytes progress : Nat) :
    ControlResultHeader :=
  { version := 1, status, ticket, requiredBytes, progress }

/-! ## little-endian words -/

/-- The number a little-endian byte string denotes. -/
def fromLeBytes (bs : List UInt8) : Nat := bs.foldr (fun b acc => b.toNat + 256 * acc) 0

variable (buf : List UInt8)

/-- The 32-bit word at byte offset `off`. -/
def u32At (off : Nat) : Nat := fromLeBytes ((buf.drop off).take 4)

/-- The 64-bit word at byte offset `off`. -/
def u64At (off : Nat) : Nat := fromLeBytes ((buf.drop off).take 8)

/-! ## handle control -/

/-- 48-byte handle control request; the action is 0 = close, 1 = derive,
2 = revoke, 3 = query. -/
structure HandleControlRequest where
  (version action ticket destinationCell destinationGeneration : Nat)
  rights : BitVec 32
  (expiryPresent expiryTick : Nat)

/-- `HandleControlRequest::decode`. -/
def HandleControlRequest.decode : Except ControlStatus HandleControlRequest :=
  if buf.length < 48 then .error .small
  else if u32At buf 0 ≠ 1 then .error .invalid
  else if 3 < u32At buf 4 then .error .invalid
  else if 1 < u32At buf 36 then .error .invalid
  else if u32At buf 36 = 0 ∧ u64At buf 40 ≠ 0 then .error .invalid
  -- close, revoke and query take no destination, rights or expiry
  else if u32At buf 4 ≠ 1 ∧ (u64At buf 16 ≠ 0 ∨ u64At buf 24 ≠ 0 ∨ u32At buf 32 ≠ 0 ∨
      u32At buf 36 ≠ 0 ∨ u64At buf 40 ≠ 0) then .error .invalid
  else .ok
    { version := u32At buf 0
      action := u32At buf 4
      ticket := u64At buf 8
      destinationCell := u64At buf 16
      destinationGeneration := u64At buf 24
      rights := BitVec.ofNat 32 (u32At buf 32)
      expiryPresent := u32At buf 36
      expiryTick := u64At buf 40 }

/-! ## CSpace control -/

/-- 64-byte CSpace request, with the same actions as handle control. -/
structure CSpaceRequest where
  (version action parentTicket targetCell targetGeneration : Nat)
  classBits : BitVec 64
  (mmioMask blockRegionMask absoluteExpiryTick : Nat)

/-- `CSpaceRequest::decode`; only class bits 0..8 are valid. -/
def CSpaceRequest.decode : Except ControlStatus CSpaceRequest :=
  if buf.length < 64 then .error .small
  else if u32At buf 0 ≠ 1 then .error .invalid
  else if 3 < u32At buf 4 then .error .invalid
  else if BitVec.ofNat 64 (u64At buf 32) &&& ~~~0x1FF#64 ≠ 0#64 then .error .invalid
  else if u32At buf 4 ≠ 1 ∧ (u64At buf 16 ≠ 0 ∨ u64At buf 24 ≠ 0 ∨ u64At buf 32 ≠ 0 ∨
      u64At buf 40 ≠ 0 ∨ u64At buf 48 ≠ 0 ∨ u64At buf 56 ≠ 0) then .error .invalid
  else .ok
    { version := u32At buf 0
      action := u32At buf 4
      parentTicket := u64At buf 8
      targetCell := u64At buf 16
      targetGeneration := u64At buf 24
      classBits := BitVec.ofNat 64 (u64At buf 32)
      mmioMask := u64At buf 40
      blockRegionMask := u64At buf 48
      absoluteExpiryTick := u64At buf 56 }

end Cellos.CSpace
