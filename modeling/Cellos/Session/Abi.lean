import Cellos.CSpace.Wire
import Cellos.Lib

/-!
# Cellos.Session.Abi

The wire layer of CellSessionV1 (`libs/api/src/abi/cell_session.rs`,
`service_binding.rs`): references, principals, children and bindings, the status
codes, the bounded little-endian reader, the encoders, and the two 24-byte record
headers.

References are selectors, never capabilities: the kernel mints `Ref`s and the
handlers authenticate the caller on every use.
-/

namespace Cellos.Session

open CSpace (fromLeBytes)
open Lib

abbrev Bytes := List UInt8

/-! ## records -/

/-- `ObjectRefV1`. -/
structure Ref where
  (id generation : Nat)
deriving DecidableEq

/-- `ObjectRefV1::ZERO`. -/
def Ref.zero : Ref := ⟨0, 0⟩

/-- `PrincipalV1`: one incarnation of a cell. -/
structure Principal where
  (cellId generation : Nat)
deriving DecidableEq

/-- `ChildRefV1`. -/
structure Child where
  principal : Principal
  (rootTid publicationGeneration : Nat)
deriving DecidableEq

/-- The prepared reservation of a child. -/
def Child.preparedRef (c : Child) : Ref := ⟨c.rootTid, c.publicationGeneration⟩

/-- `ServiceBinding`: one live provider of a service. -/
structure Binding where
  (tid cellId generation : Nat)
deriving DecidableEq

/-- The incarnation a binding names. -/
def Binding.principal (b : Binding) : Principal := ⟨b.cellId, b.generation⟩

/-- `Status`. -/
inductive Status where
  | ok | eof | unsupportedVersion | malformed | invalidFlags | unknownOperation | denied | stale
  | wrongOwner | wrongDirection | wrongSession | wrongEpoch | invalidChild | quotaExceeded
  | wouldBlock | timedOut | cancelled | revoked | brokenPipe | notFound | unsupported
  | unsupportedInput | io | indeterminate | bufferTooSmall | unknownRequest
deriving DecidableEq

/-- The wire code of a status. -/
def Status.code : Status → Nat
  | .ok => 0 | .eof => 1 | .unsupportedVersion => 2 | .malformed => 3 | .invalidFlags => 4
  | .unknownOperation => 5 | .denied => 6 | .stale => 7 | .wrongOwner => 8 | .wrongDirection => 9
  | .wrongSession => 10 | .wrongEpoch => 11 | .invalidChild => 12 | .quotaExceeded => 13
  | .wouldBlock => 14 | .timedOut => 15 | .cancelled => 16 | .revoked => 17 | .brokenPipe => 18
  | .notFound => 19 | .unsupported => 20 | .unsupportedInput => 21 | .io => 22
  | .indeterminate => 23 | .bufferTooSmall => 24 | .unknownRequest => 25

/-! ## constants -/

def headerLen : Nat := 24
def maxRequestLen : Nat := 4152
def contextMax : Nat := 9112
def contextMaxGrants : Nat := 9
/-- `GRANT_KIND_INPUT_FRONTEND`. -/
def kindInputFrontend : Nat := 6
def slotFrontend : Nat := 8
def frontendSealLen : Nat := 48

/-! ## the reader -/

/-- `Reader`: what is left of the record, or the status that refused it. -/
abbrev Reader := StateT Bytes (Except Status)

namespace Reader

def take (len : Nat) : Reader Bytes := fun bytes =>
  if len ≤ bytes.length then .ok (bytes.take len, bytes.drop len) else .error .malformed

/-- Go on when the condition holds. -/
def check (c : Prop) [Decidable c] (status : Status) : Reader Unit :=
  liftM (require c status : Except Status Unit)

def word (width : Nat) : Reader Nat := do return fromLeBytes (← take width)

def u16 : Reader Nat := word 2
def u32 : Reader Nat := word 4
def u64 : Reader Nat := word 8

def reference : Reader Ref := do return ⟨← u64, ← u64⟩
def principal : Reader Principal := do return ⟨← u64, ← u64⟩
def child : Reader Child := do return ⟨← principal, ← u64, ← u64⟩

/-- A binding that names no live provider is malformed. -/
def binding : Reader Binding := do
  let b : Binding := ⟨← u64, ← u64, ← u64⟩
  if b.tid ≠ 0 ∧ b.cellId ≠ 0 ∧ b.generation ≠ 0 then return b else throw .malformed

def finish : Reader Unit := fun bytes => if bytes = [] then .ok ((), bytes) else .error .malformed

/-- `zero(r.u32()?)?`: a reserved word. -/
def zero : Reader Unit := do
  if (← u32) = 0 then return () else throw .malformed

/-- Read a whole record: trailing bytes are malformed. -/
def parse {α : Type} (r : Reader α) (bytes : Bytes) : Except Status α :=
  (do let a ← r; finish; return a : Reader α).run' bytes

end Reader

/-- `ObjectRefV1::from_bytes` of the sixteen bytes at `offset`, as `read_ref` does. -/
def readRef (bytes : Bytes) (offset : Nat) : Except Status Ref :=
  Reader.reference.run' ((bytes.drop offset).take 16)

/-! ## the encoders -/

/-- The low `width` bytes of `value`, least significant first. -/
def leBytes : Nat → Nat → Bytes
  | 0, _ => []
  | width + 1, value => UInt8.ofNat value :: leBytes width (value / 256)

def Ref.toBytes (r : Ref) : Bytes := leBytes 8 r.id ++ leBytes 8 r.generation
def Principal.toBytes (p : Principal) : Bytes := leBytes 8 p.cellId ++ leBytes 8 p.generation
def Child.toBytes (c : Child) : Bytes :=
  c.principal.toBytes ++ leBytes 8 c.rootTid ++ leBytes 8 c.publicationGeneration
def Binding.toBytes (b : Binding) : Bytes :=
  leBytes 8 b.tid ++ leBytes 8 b.cellId ++ leBytes 8 b.generation

/-- `i32::to_le_bytes`. -/
def i32Bytes (value : Int) : Bytes := leBytes 4 (value % 2 ^ 32).toNat

/-! ## headers -/

/-- `RequestHeaderV1`. -/
structure RequestHeader where
  (selector totalLen requestId : Nat)
deriving DecidableEq

/-- `decode_header`: version, selector, flags or status, length, reserved word, id. -/
def decodeHeader (record : Bytes) : Except Status (Nat × Nat × Nat × Nat) :=
  if record.length < headerLen then .error .malformed
  else (do
    if (← Reader.u32) ≠ 1 then throw .unsupportedVersion
    let selector ← Reader.u16
    let field ← Reader.u16
    let len ← Reader.u32
    Reader.zero
    let id ← Reader.u64
    if len < headerLen then throw .malformed
    return (selector, field, len, id) : Reader _).run' (record.take headerLen)

/-- `RequestHeaderV1::decode`. -/
def RequestHeader.decode (record : Bytes) : Except Status RequestHeader := do
  let (selector, flags, totalLen, requestId) ← decodeHeader record
  require (flags = 0) .invalidFlags
  require (¬(requestId = 0 ∨ totalLen ≠ record.length ∨ record.length > maxRequestLen)) .malformed
  return { selector, totalLen, requestId }

/-- `encode_header` for a result record. -/
def encodeHeader (selector : Nat) (status : Status) (len id : Nat) : Bytes :=
  leBytes 4 1 ++ leBytes 2 selector ++ leBytes 2 status.code ++ leBytes 4 len ++ leBytes 4 0 ++
    leBytes 8 id

/-- A request record, as a caller lays it out. -/
def encodeRequest (selector id : Nat) (body : Bytes) : Bytes :=
  encodeHeader selector .ok (headerLen + body.length) id ++ body

/-- `encode_result`: a header and its payload. -/
def encodeResult (header : RequestHeader) (status : Status) (payload : Bytes) : Bytes :=
  encodeHeader header.selector status (headerLen + payload.length) header.requestId ++ payload

/-- The reply to a record whose header does not decode echoes what it can. -/
def rejectHeader (request : Bytes) (status : Status) : Bytes :=
  encodeHeader (fromLeBytes ((request.drop 4).take 2)) status headerLen
    (fromLeBytes ((request.drop 16).take 8))

/-- `Status::try_from`: the statuses in the order of their codes. -/
def Status.ofCode (code : Nat) : Except Status Status :=
  demand ([ok, eof, unsupportedVersion, malformed, invalidFlags, unknownOperation, denied, stale,
    wrongOwner, wrongDirection, wrongSession, wrongEpoch, invalidChild, quotaExceeded, wouldBlock,
    timedOut, cancelled, revoked, brokenPipe, notFound, unsupported, unsupportedInput, io,
    indeterminate, bufferTooSmall, unknownRequest][code]?) .malformed

/-- `ResultHeaderV1`. -/
structure ResultHeader where
  selector : Nat
  status : Status
  (totalLen requestId : Nat)
deriving DecidableEq

/-- `ResultHeaderV1::decode`, at the caller. -/
def ResultHeader.decode (record : Bytes) : Except Status ResultHeader := do
  let (selector, code, totalLen, requestId) ← decodeHeader record
  let status ← Status.ofCode code
  require (requestId ≠ 0 ∨ status ∈ [.malformed, .unsupportedVersion, .invalidFlags]) .malformed
  if status = .bufferTooSmall then
    require (record.length = headerLen ∧ headerLen < totalLen) .malformed
  else
    require (totalLen = record.length ∧ (status = .ok ∨ record.length = headerLen)) .malformed
  return { selector, status, totalLen, requestId }

/-! ## what is written is read -/

@[simp] theorem length_leBytes (width value : Nat) : (leBytes width value).length = width := by
  induction width generalizing value with
  | zero => rfl
  | succ _ ih => simp [leBytes, ih]

theorem fromLeBytes_leBytes (h : value < 256 ^ width) :
    fromLeBytes (leBytes width value) = value := by
  induction width generalizing value with
  | zero => simp_all [leBytes, fromLeBytes]
  | succ width ih =>
    rw [pow_succ] at h
    have hrest := ih (show value / 256 < 256 ^ width by omega)
    simp only [fromLeBytes] at hrest
    simp only [leBytes, fromLeBytes, List.foldr_cons, hrest, UInt8.toNat_ofNat']
    omega

/-- Reading a word that was written yields it, and goes on behind it. -/
theorem word_bind {α : Type} (f : Nat → Reader α) (h : value < 256 ^ width) (rest : Bytes) :
    (Reader.word width >>= f) (leBytes width value ++ rest) = f value rest := by
  have htake : (leBytes width value ++ rest).take width = leBytes width value := by simp
  have hdrop : (leBytes width value ++ rest).drop width = rest := by simp
  simp [Reader.word, Reader.take, bind, StateT.bind, Except.bind, htake, hdrop,
    fromLeBytes_leBytes h, pure, StateT.pure, Except.pure]

@[simp] theorem length_encodeHeader :
    (encodeHeader selector status len requestId).length = headerLen := by
  simp [encodeHeader, headerLen]

theorem decodeHeader_encodeHeader (hselector : selector < 256 ^ 2) (hlen : len < 256 ^ 4)
    (hheader : headerLen ≤ len) (hid : requestId < 256 ^ 8) (status : Status) (rest : Bytes) :
    decodeHeader (encodeHeader selector status len requestId ++ rest) =
      .ok (selector, status.code, len, requestId) := by
  have hcode : status.code < 256 ^ 2 := by cases status <;> decide
  unfold decodeHeader
  rw [if_neg (by simp), List.take_left' length_encodeHeader, encodeHeader,
    ← List.append_nil (leBytes 8 requestId)]
  simp only [List.append_assoc, StateT.run', Reader.u32, Reader.u16, Reader.u64, Reader.zero,
    bind_assoc]
  rw [word_bind _ (by decide), if_neg (not_not.mpr rfl), word_bind _ hselector, word_bind _ hcode,
    word_bind _ hlen, word_bind _ (by decide), if_pos rfl, pure_bind, word_bind _ hid,
    if_neg (Nat.not_lt.mpr hheader)]
  rfl

/-- **Requests and replies survive the wire**: a request record decodes to its header, and the
record of any answer to it, a payload or a refusal, to that status and to the selector and the id
of the request. -/
theorem records_round_trip (selector id : Nat) (body : Bytes) (hselector : selector < 2 ^ 16)
    (hpos : id ≠ 0) (hid : id < 2 ^ 64) (hbody : headerLen + body.length ≤ maxRequestLen) :
    let header : RequestHeader := ⟨selector, headerLen + body.length, id⟩
    RequestHeader.decode (encodeRequest selector id body) = .ok header ∧
      ∀ status payload, status ≠ .bufferTooSmall → status = .ok ∨ payload = [] →
        headerLen + payload.length < 2 ^ 32 →
        ResultHeader.decode (encodeResult header status payload) =
          .ok ⟨selector, status, headerLen + payload.length, id⟩ := by
  refine ⟨?_, fun status payload hsmall hpayload hlen => ?_⟩
  · have hlen : headerLen + body.length < 256 ^ 4 := hbody.trans_lt (by decide)
    unfold RequestHeader.decode encodeRequest
    rw [decodeHeader_encodeHeader hselector hlen (Nat.le_add_right _ _) hid]
    simp [bind, Except.bind, require, hpos, hbody, Status.code, pure, Except.pure]
  · have hcode : Status.ofCode status.code = .ok status := by cases status <;> rfl
    unfold ResultHeader.decode encodeResult
    rw [decodeHeader_encodeHeader hselector hlen (Nat.le_add_right _ _) hid]
    simp [bind, Except.bind, require, hpos, hcode, hsmall, hpayload, pure, Except.pure]

/-- A request with four bytes that is answered with two. -/
theorem records_round_trip_answered :
    RequestHeader.decode (encodeRequest 8 1 [1, 2, 3, 4]) = .ok ⟨8, 28, 1⟩ ∧
      ResultHeader.decode (encodeResult ⟨8, 28, 1⟩ .ok [7, 9]) = .ok ⟨8, .ok, 26, 1⟩ := by
  obtain ⟨hrequest, hresult⟩ :=
    records_round_trip 8 1 [1, 2, 3, 4] (by decide) (by decide) (by decide) (by decide)
  exact ⟨hrequest, hresult .ok [7, 9] (by decide) (.inl rfl) (by decide)⟩

end Cellos.Session
