import Cellos.RootStream.Placement

/-!
# Cellos.RootStream.Xmodem

The XMODEM-1K transcript in which a root stream is sent (`xmodem.rs`).

`encodeXmodem` cuts the stream into blocks of 1024 bytes, pads the last one, and sends every
block in a frame with its number, the number's complement and a CRC; one EOT ends the
transcript.  `decodeXmodem` reads such a transcript back and refuses everything else.

The caller's buffer is its `capacity`.  A slice has at most `isize::MAX` bytes and the block
limit is a `u32`, so the overflow checks of the source never fail.
-/

namespace Cellos.RootStream

open Lib List

def xmodemFrameLen : Nat := 1029
def xmodemStx : UInt8 := 0x02
def xmodemEot : UInt8 := 0x04
def xmodemPadding : UInt8 := 0x1a

/-- CRC-16/XMODEM over one frame payload (polynomial 0x1021, initial value zero). -/
def crc16Xmodem (bytes : List UInt8) : UInt16 :=
  let shift (crc : UInt16) := if crc &&& 0x8000 ≠ 0 then (crc <<< 1) ^^^ 0x1021 else crc <<< 1
  bytes.foldl (fun crc byte => shift^[8] (crc ^^^ (byte.toUInt16 <<< (8 : UInt16)))) 0

def blockCount (logicalLen : Nat) (maxBlocks : UInt32) : Except Error Nat := do
  require (logicalLen ≠ 0 ∧ maxBlocks ≠ 0) .limitExceeded
  let blocks := (logicalLen + (xmodemBlockLen - 1)) / xmodemBlockLen
  require (blocks ≤ maxBlocks.toNat) .limitExceeded
  return blocks

/-! ## encoding -/

/-- The next block: padding, over which what is left of the stream is copied. -/
def block (logical : List UInt8) : List UInt8 :=
  let source := logical.take xmodemBlockLen
  source ++ replicate (xmodemBlockLen - source.length) xmodemPadding

/-- `u16::to_be_bytes`. -/
def toBeBytes (n : UInt16) : List UInt8 := [UInt8.ofNat (n.toNat / 256), n.toUInt8]

def frame (index : Nat) (payload : List UInt8) : List UInt8 :=
  let block := UInt8.ofNat (index + 1)
  xmodemStx :: block :: ~~~block :: (payload ++ toBeBytes (crc16Xmodem payload))

/-- The loop of `encode_xmodem` with `n` blocks to go, on what is left of the stream. -/
def encodeFrames (logical : List UInt8) (index : Nat) : Nat → List UInt8
  | 0 => [xmodemEot]
  | n + 1 => frame index (block logical) ++ encodeFrames (logical.drop xmodemBlockLen) (index + 1) n

def encodeXmodem (logical : List UInt8) (capacity : Nat) (maxBlocks : UInt32) :
    Except Error (List UInt8) := do
  let blocks ← blockCount logical.length maxBlocks
  require (blocks * xmodemFrameLen + 1 ≤ capacity) .outputTooSmall
  return encodeFrames logical 0 blocks

/-! ## decoding -/

/-- The frame after its STX, and the rest of the transcript. -/
def readFrame (blocks : Nat) : List UInt8 → Except Error (List UInt8 × List UInt8)
  | number :: complement :: body =>
    match body.drop xmodemBlockLen with
    | high :: low :: rest => do
      let expected := UInt8.ofNat (blocks + 1)
      let payload := body.take xmodemBlockLen
      require (number = expected ∧ complement = ~~~expected) .invalidBlock
      require ((crc16Xmodem payload).toNat = fromBeBytes [high, low]) .invalidCrc
      return (payload, rest)
    | _ => .error .missingEot
  | _ => .error .missingEot

/-- The loop of `decode_xmodem` on what is left of the transcript.  Every turn reads a byte, so
its length is fuel enough. -/
def decodeFrames (capacity maxBlocks : Nat) : Nat → Nat → List UInt8 → Except Error (List UInt8)
  | fuel + 1, blocks, marker :: rest =>
    if marker = xmodemEot then do
      require (blocks ≠ 0) .invalidFrame
      require (rest = []) .trailingData
      return []
    else do
      require (marker = xmodemStx) .invalidFrame
      require (blocks < maxBlocks) .limitExceeded
      let (payload, rest) ← readFrame blocks rest
      require ((blocks + 1) * xmodemBlockLen ≤ capacity) .outputTooSmall
      return payload ++ (← decodeFrames capacity maxBlocks fuel (blocks + 1) rest)
  | _, _, _ => .error .missingEot

def decodeXmodem (transcript : List UInt8) (capacity : Nat) (maxBlocks : UInt32) :
    Except Error (List UInt8) := do
  require (maxBlocks ≠ 0) .limitExceeded
  decodeFrames capacity maxBlocks.toNat transcript.length 0 transcript

/-! ## the two directions -/

theorem toBeBytes_eq_iff :
    toBeBytes n = [high, low] ↔ n.toNat = fromBeBytes [high, low] := by
  have hn := n.toNat_lt
  have hhigh := high.toNat_lt
  have hlow := low.toNat_lt
  simp only [toBeBytes, cons.injEq, and_true, ← UInt8.toNat_inj, UInt8.toNat_ofNat',
    UInt16.toNat_toUInt8, fromBeBytes, foldl_cons, foldl_nil]
  omega

theorem length_block (logical : List UInt8) : (block logical).length = xmodemBlockLen := by
  simp only [block, length_append, length_take, length_replicate]
  omega

theorem block_append (hpayload : payload.length = xmodemBlockLen) :
    block (payload ++ rest) = payload := by
  simp [block, take_left' hpayload, hpayload]

theorem length_encodeFrames : (encodeFrames logical index n).length = n * xmodemFrameLen + 1 := by
  induction n generalizing logical index with
  | zero => simp [encodeFrames]
  | succ n ih =>
    simp only [encodeFrames, frame, toBeBytes, length_append, length_cons, length_nil, length_block,
      ih, xmodemBlockLen, xmodemFrameLen]
    omega

/-- Padding the stream first makes no difference. -/
theorem encodeFrames_padded (m : Nat) :
    encodeFrames (logical ++ replicate m xmodemPadding) index n = encodeFrames logical index n := by
  induction n generalizing logical index m with
  | zero => rfl
  | succ n ih =>
    have hblock : block (logical ++ replicate m xmodemPadding) = block logical := by
      simp only [block, take_append, take_replicate, append_assoc, replicate_append_replicate,
        length_append, length_replicate]
      congr 2
      simp only [length_take]
      omega
    rw [encodeFrames, encodeFrames, hblock, drop_append, drop_replicate, ih]

theorem readFrame_eq_ok : readFrame blocks rest = .ok (payload, logical) ↔
    payload.length = xmodemBlockLen ∧ xmodemStx :: rest = frame blocks payload ++ logical := by
  constructor
  · intro h
    unfold readFrame at h
    split at h
    · split at h
      · next number complement body _ high low tail hbody =>
        simp only [bind_eq_ok, require_eq_ok, pure_eq_ok, Prod.mk.injEq] at h
        obtain ⟨-, ⟨rfl, rfl⟩, -, hcrc, rfl, rfl⟩ := h
        have hlen := congrArg length hbody
        simp only [length_drop, length_cons] at hlen
        constructor
        · rw [length_take]
          omega
        · simp [frame, toBeBytes_eq_iff.mpr hcrc, ← hbody]
      · contradiction
    · contradiction
  · rintro ⟨hlen, h⟩
    have hcrc := toBeBytes_eq_iff.mp (show toBeBytes (crc16Xmodem payload) = _ from rfl)
    obtain rfl := (cons.inj h).2
    simp [readFrame, drop_left' hlen, take_left' hlen, toBeBytes, ← hcrc, require]

/-- **The loop reads what the encoder writes**, and nothing else. -/
theorem decodeFrames_eq_ok (hblocks : blocks ≤ maxBlocks)
    (hroom : blocks * xmodemBlockLen ≤ capacity) :
    decodeFrames capacity maxBlocks fuel blocks rest = .ok logical ↔
      ∃ n, logical.length = n * xmodemBlockLen ∧ 0 < blocks + n ∧ blocks + n ≤ maxBlocks ∧
        (blocks + n) * xmodemBlockLen ≤ capacity ∧ n < fuel ∧
        rest = encodeFrames logical blocks n := by
  induction fuel generalizing blocks rest logical with
  | zero => simp [decodeFrames]
  | succ fuel ih =>
    cases rest with
    | nil =>
      have hne (n : Nat) : encodeFrames logical blocks n ≠ [] := by
        cases n <;> simp [encodeFrames, frame]
      simp [decodeFrames, (hne _).symm]
    | cons marker rest =>
      simp only [decodeFrames]
      split
      · next heot =>
        subst heot
        simp only [bind_eq_ok, require_eq_ok, pure_eq_ok]
        constructor
        · rintro ⟨-, hpos, -, rfl, rfl⟩
          exact ⟨0, by simp, by omega, hblocks, hroom, by omega, rfl⟩
        · rintro ⟨n, hlen, hpos, -, -, -, heq⟩
          cases n with
          | zero =>
            rw [Nat.zero_mul, length_eq_zero_iff] at hlen
            exact ⟨(), by omega, (), (cons.inj heq).2, hlen.symm⟩
          | succ => cases (cons.inj heq).1
      · next heot =>
        simp only [bind_eq_ok, require_eq_ok, pure_eq_ok, Prod.exists, readFrame_eq_ok]
        constructor
        · rintro ⟨-, rfl, -, hlt, payload, tail, ⟨hpayload, hframe⟩, -, hnext, later, hlater, rfl⟩
          obtain ⟨n, hlen, -, hle, hfit, hfuel, rfl⟩ := (ih (by omega) hnext).mp hlater
          refine ⟨n + 1, ?_, by omega, by omega, ?_, by omega, ?_⟩
          · rw [length_append, hpayload, hlen, Nat.add_mul, Nat.one_mul, Nat.add_comm]
          · rwa [Nat.add_comm n, ← Nat.add_assoc]
          · rw [hframe, encodeFrames, block_append hpayload, drop_left' hpayload]
        · rintro ⟨n, hlen, hpos, hle, hfit, hfuel, heq⟩
          cases n with
          | zero => exact absurd (cons.inj heq).1 heot
          | succ n =>
            have hstx : marker = xmodemStx := (cons.inj heq).1
            have hnext := Nat.mul_le_mul_right xmodemBlockLen
              (show blocks + 1 ≤ blocks + (n + 1) by omega)
            rw [Nat.add_mul, Nat.one_mul] at hlen
            have hpayload : (logical.take xmodemBlockLen).length = xmodemBlockLen := by
              rw [length_take, hlen]
              omega
            have hsplit := take_append_drop xmodemBlockLen logical
            have hblock : block logical = logical.take xmodemBlockLen := by
              rw [← block_append hpayload, hsplit]
            rw [encodeFrames, hblock, hstx] at heq
            refine ⟨(), hstx, (), by omega, _, _, ⟨hpayload, heq⟩, (), hnext.trans hfit, _, ?_,
              hsplit⟩
            refine (ih (by omega) (hnext.trans hfit)).mpr
              ⟨n, ?_, by omega, by omega, ?_, by omega, rfl⟩
            · rw [length_drop, hlen, Nat.add_sub_cancel]
            · rw [Nat.add_assoc, Nat.add_comm 1]
              exact hfit

theorem encodeXmodem_of_fits (hne : logical ≠ [])
    (hn : (logical.length + 1023) / 1024 = n) (hfits : n ≤ maxBlocks.toNat)
    (hroom : n * xmodemFrameLen + 1 ≤ capacity) :
    maxBlocks ≠ 0 ∧ encodeXmodem logical capacity maxBlocks = .ok (encodeFrames logical 0 n) := by
  have hpos : logical.length ≠ 0 := by simpa using hne
  have hmax : maxBlocks ≠ 0 := by
    rintro rfl
    simp at hfits
    omega
  subst hn
  refine ⟨hmax, bind_eq_ok.mpr ⟨_, ?_, bind_eq_ok.mpr ⟨(), require_eq_ok.mpr hroom, rfl⟩⟩⟩
  exact bind_eq_ok.mpr ⟨(), require_eq_ok.mpr ⟨hpos, hmax⟩, bind_eq_ok.mpr ⟨(),
    require_eq_ok.mpr hfits, rfl⟩⟩

/-- **The transcript is exact**: a stream within the block limit is sent as a transcript that
decodes to the padded stream, and every transcript that decodes is the one of what it decodes to.
-/
theorem xmodem_exact (maxBlocks : UInt32) :
    (∀ (logical : List UInt8) (blocks capacity room : Nat), logical ≠ [] →
      (logical.length + 1023) / 1024 = blocks → blocks ≤ maxBlocks.toNat →
      blocks * 1029 + 1 ≤ capacity → blocks * 1024 ≤ room →
      ∃ transcript, encodeXmodem logical capacity maxBlocks = .ok transcript ∧
        decodeXmodem transcript room maxBlocks =
          .ok (logical ++ replicate (blocks * 1024 - logical.length) xmodemPadding)) ∧
    ∀ (transcript : List UInt8) (room : Nat) (payload : List UInt8),
      decodeXmodem transcript room maxBlocks = .ok payload →
        encodeXmodem payload transcript.length maxBlocks = .ok transcript := by
  constructor
  · intro logical blocks capacity room hne hblocks hfits hcapacity hroom
    obtain ⟨hmax, hencode⟩ := encodeXmodem_of_fits hne hblocks hfits hcapacity
    have hpos : logical.length ≠ 0 := by simpa using hne
    refine ⟨_, hencode, ?_⟩
    refine bind_eq_ok.mpr ⟨(), require_eq_ok.mpr hmax, ?_⟩
    refine (decodeFrames_eq_ok (Nat.zero_le _) (by simp)).mpr ⟨blocks, ?_, ?_, ?_, ?_, ?_, ?_⟩
    · rw [length_append, length_replicate, xmodemBlockLen]
      omega
    · omega
    · rwa [Nat.zero_add]
    · rwa [Nat.zero_add]
    · rw [length_encodeFrames, xmodemFrameLen]
      omega
    · rw [encodeFrames_padded]
  · intro transcript room payload h
    obtain ⟨-, -, h⟩ := bind_eq_ok.mp h
    obtain ⟨n, hlen, hpos, hle, -, -, rfl⟩ := (decodeFrames_eq_ok (Nat.zero_le _) (by simp)).mp h
    rw [Nat.zero_add] at hpos hle
    rw [xmodemBlockLen] at hlen
    have hne : payload ≠ [] := by
      rintro rfl
      rw [length_nil] at hlen
      omega
    exact (encodeXmodem_of_fits hne (by omega) hle length_encodeFrames.ge).2

end Cellos.RootStream
