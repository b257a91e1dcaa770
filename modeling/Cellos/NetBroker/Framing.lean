import Cellos.Lib

/-!
# Cellos.NetBroker.Framing

Broker records over a TCP stream (`tcp_framing.rs`).

`writeMessage` sends a two-byte little-endian length and then the message, each with one
`TcpSend`; `readMessage` asks for two bytes and then for as many as they say, each with one
`TcpRecv`.  A send takes some of the data, and a receive delivers less than is asked for when
less has arrived.  Neither function asks again, so `readMessage` returns what its second call
delivered as if it were the message.  A call whose answer is lost may have moved bytes all the
same.

`Whole` says of one call that the service does all that is asked of it, or nothing.
-/

namespace Cellos.NetBroker.Framing

open Lib List

/-! ## the TCP service -/

def netTcpInlineDataMax : Nat := 4096 - 256

/-- The bytes one side has sent and the other has not yet been given. -/
abbrev Stream := List UInt8

/-- What becomes of a `TcpSend`: the socket takes so many bytes, and the caller is told or the
call fails. -/
inductive SendAnswer where
  | accepted (n : Nat)
  | failed (n : Nat)
  deriving DecidableEq

/-- What becomes of a `TcpRecv`: so many bytes have arrived for it, and the caller gets them or
the call fails, which loses what the service has dequeued. -/
inductive RecvAnswer where
  | arrived (n : Nat)
  | failed (n : Nat)
  deriving DecidableEq

variable (stream : Stream)

/-- `NetRequest::TcpSend`: whether the call returns `Ok`, and the stream. -/
def tcpSend (data : List UInt8) : SendAnswer → Bool × Stream
  | .accepted n => (true, stream ++ data.take n)
  | .failed n => (false, stream ++ data.take n)

/-- The bytes a `TcpRecv` takes of the `n` that have arrived. -/
def dequeued (n bufLen : Nat) : Nat := min n (min bufLen netTcpInlineDataMax)

/-- `NetRequest::TcpRecv`: the data and what stays in the stream. -/
def tcpRecv (bufLen : Nat) : RecvAnswer → Option (List UInt8) × Stream
  | .arrived n => (some (stream.take (dequeued n bufLen)), stream.drop (dequeued n bufLen))
  | .failed n => (none, stream.drop (dequeued n bufLen))

/-! ## messages -/

/-- `(n as u16).to_le_bytes()`. -/
def toLeBytes (n : Nat) : List UInt8 := [UInt8.ofNat n, UInt8.ofNat (n / 256)]

/-- `u16::from_le_bytes` of the first two bytes. -/
def fromLeBytes : List UInt8 → Nat
  | low :: high :: _ => low.toNat + 256 * high.toNat
  | _ => 0

/-- Whether the message was written, and the stream. -/
def writeMessage (message : List UInt8) (first second : SendAnswer) : Bool × Stream :=
  match tcpSend stream (toLeBytes message.length) first with
  | (false, stream) => (false, stream)
  | (true, stream) => tcpSend stream message second

/-- The message read, and the stream. -/
def readMessage (bufferLen : Nat) (first second : RecvAnswer) : Option (List UInt8) × Stream :=
  match tcpRecv stream 2 first with
  | (none, stream) => (none, stream)
  | (some header, stream) =>
    if header.length < 2 then (none, stream)
    else
      let messageLen := fromLeBytes header
      if bufferLen < messageLen then (none, stream)
      else
        match tcpRecv stream messageLen second with
        | (none, stream) => (none, stream)
        | (some payload, stream) => (some (payload.take (min payload.length messageLen)), stream)

/-! ## runs -/

/-- A call on one of the two sides, with what the service does. -/
inductive Input where
  | write (message : List UInt8) (first second : SendAnswer)
  | read (bufferLen : Nat) (first second : RecvAnswer)

inductive Reply where
  | wrote (message : List UInt8)
  | read (message : List UInt8)
  | failed
  deriving DecidableEq

def step : Input → Option (Reply × Stream)
  | .write message first second =>
    let (done, stream) := writeMessage stream message first second
    some (if done then .wrote message else .failed, stream)
  | .read bufferLen first second =>
    match readMessage stream bufferLen first second with
    | (some message, stream) => some (.read message, stream)
    | (none, stream) => some (.failed, stream)

/-- The messages written by the calls that returned `Ok`. -/
def written (replies : List Reply) : List (List UInt8) :=
  replies.filterMap fun | .wrote message => some message | _ => none

/-- The messages returned by the calls that returned `Ok`. -/
def returned (replies : List Reply) : List (List UInt8) :=
  replies.filterMap fun | .read message => some message | _ => none

/-- The socket takes at least so many bytes. -/
def SendAnswer.takes (len : Nat) : SendAnswer → Prop
  | .accepted n => len ≤ n
  | .failed _ => False

/-- At least so many bytes have arrived. -/
def RecvAnswer.gives (len : Nat) : RecvAnswer → Prop
  | .arrived n => len ≤ n
  | .failed _ => False

/-- The service does all that is asked of it, or nothing: a write's length fits in two bytes and
both its sends are taken whole, and a read is given the two bytes and then the whole message,
for which its buffer has room. -/
def Whole : Input → Prop
  | .write message first second => first = .failed 0 ∨
    message.length < 2 ^ 16 ∧ first.takes 2 ∧ second.takes message.length
  | .read bufferLen first second => first = .failed 0 ∨ first = .arrived 0 ∨ stream = [] ∨
    first.gives 2 ∧ fromLeBytes stream ≤ bufferLen ∧ fromLeBytes stream ≤ netTcpInlineDataMax ∧
      second.gives (fromLeBytes stream)

instance (len : Nat) (answer : SendAnswer) : Decidable (answer.takes len) := by
  cases answer <;> unfold SendAnswer.takes <;> infer_instance

instance (len : Nat) (answer : RecvAnswer) : Decidable (answer.gives len) := by
  cases answer <;> unfold RecvAnswer.gives <;> infer_instance

instance (stream : Stream) (input : Input) : Decidable (Whole stream input) := by
  cases input <;> unfold Whole <;> infer_instance

/-! ## frames -/

variable {stream : Stream} {message : List UInt8} {replies : List Reply}

/-- What a message written whole adds to the stream. -/
def frame (message : List UInt8) : List UInt8 := toLeBytes message.length ++ message

theorem fromLeBytes_frame (h : message.length < 2 ^ 16) :
    fromLeBytes (frame message ++ rest) = message.length := by
  show (UInt8.ofNat message.length).toNat + 256 * (UInt8.ofNat (message.length / 256)).toNat = _
  rw [UInt8.toNat_ofNat', UInt8.toNat_ofNat']
  omega

/-- The messages written and not yet read are the frames in the stream. -/
structure Aligned (replies : List Reply) (stream : Stream) (pending : List (List UInt8)) : Prop where
  order : written replies = returned replies ++ pending
  frames : stream = pending.flatMap frame
  short : ∀ message ∈ pending, message.length < 2 ^ 16

theorem Aligned.failed (h : Aligned replies stream pending) :
    Aligned (replies ++ [.failed]) stream pending := by
  refine { h with order := ?_ }
  simpa [written, returned] using h.order

theorem writeMessage_whole (hfirst : first.takes 2) (hsecond : second.takes message.length) :
    writeMessage stream message first second = (true, stream ++ frame message) := by
  cases first with
  | failed => contradiction
  | accepted n =>
    cases second with
    | failed => contradiction
    | accepted k =>
      have hlength : (toLeBytes message.length).take n = toLeBytes message.length :=
        take_of_length_le hfirst
      have hmessage : message.take k = message := take_of_length_le hsecond
      simp [writeMessage, tcpSend, hlength, hmessage, frame]

theorem aligned_write
    (h : Aligned replies stream pending) (hwhole : Whole stream (.write message first second))
    (hstep : step stream (.write message first second) = some (reply, stream')) :
    ∃ pending', Aligned (replies ++ [reply]) stream' pending' := by
  rcases hwhole with rfl | ⟨hshort, hfirst, hsecond⟩
  · obtain ⟨rfl, rfl⟩ := by simpa [step, writeMessage, tcpSend] using hstep
    exact ⟨pending, h.failed⟩
  have hsent : writeMessage stream message first second = (true, stream ++ frame message) :=
    writeMessage_whole hfirst hsecond
  obtain ⟨rfl, rfl⟩ := by simpa [step, hsent] using hstep
  refine ⟨pending ++ [message], ?_, ?_, ?_⟩
  · have horder := h.order
    simp only [written, returned] at horder
    simp [written, returned, horder]
  · simp [h.frames]
  · exact forall_mem_concat h.short hshort

/-- A read that is given no header fails and takes nothing. -/
theorem readMessage_nothing (h : first = .failed 0 ∨ first = .arrived 0 ∨ stream = []) :
    readMessage stream bufferLen first second = (none, stream) := by
  rcases h with rfl | rfl | rfl
  · simp [readMessage, tcpRecv, dequeued]
  · simp [readMessage, tcpRecv, dequeued]
  · cases first <;> simp [readMessage, tcpRecv]

theorem readMessage_whole (hfirst : first.gives 2)
    (hshort : message.length < 2 ^ 16) (hbuffer : message.length ≤ bufferLen)
    (hinline : message.length ≤ netTcpInlineDataMax) (hsecond : second.gives message.length) :
    readMessage (frame message ++ rest) bufferLen first second = (some message, rest) := by
  obtain ⟨n, rfl, hn⟩ : ∃ n, first = .arrived n ∧ 2 ≤ n := by
    cases first with
    | arrived n => exact ⟨n, rfl, hfirst⟩
    | failed => contradiction
  obtain ⟨k, rfl, hk⟩ : ∃ k, second = .arrived k ∧ message.length ≤ k := by
    cases second with
    | arrived k => exact ⟨k, rfl, hsecond⟩
    | failed => contradiction
  have hheader : dequeued n 2 = 2 := by
    unfold dequeued netTcpInlineDataMax
    omega
  have hpayload : dequeued k message.length = message.length := by
    unfold dequeued
    omega
  have htake : (frame message ++ rest).take 2 = toLeBytes message.length := rfl
  have hdrop : (frame message ++ rest).drop 2 = message ++ rest := rfl
  have hlen : fromLeBytes (toLeBytes message.length) = message.length :=
    @fromLeBytes_frame message [] hshort
  have hheaderLen : ¬ (toLeBytes message.length).length < 2 := by simp [toLeBytes]
  simp only [readMessage, tcpRecv, hheader, htake, hdrop, if_neg hheaderLen, hlen,
    if_neg (Nat.not_lt.mpr hbuffer), hpayload]
  simp

theorem aligned_read
    (h : Aligned replies stream pending) (hwhole : Whole stream (.read bufferLen first second))
    (hstep : step stream (.read bufferLen first second) = some (reply, stream')) :
    ∃ pending', Aligned (replies ++ [reply]) stream' pending' := by
  have hnothing : first = .failed 0 ∨ first = .arrived 0 ∨ stream = [] →
      ∃ pending', Aligned (replies ++ [reply]) stream' pending' := by
    intro hgiven
    obtain ⟨rfl, rfl⟩ := by simpa [step, readMessage_nothing hgiven] using hstep
    exact ⟨pending, h.failed⟩
  rcases hwhole with hfailed | hempty | hnil | ⟨hfirst, hbuffer, hinline, hsecond⟩
  · exact hnothing (.inl hfailed)
  · exact hnothing (.inr (.inl hempty))
  · exact hnothing (.inr (.inr hnil))
  cases pending with
  | nil => exact hnothing (.inr (.inr h.frames))
  | cons message rest =>
    have hshort := h.short message mem_cons_self
    have hframes : stream = frame message ++ rest.flatMap frame := h.frames
    rw [hframes, fromLeBytes_frame hshort] at hbuffer hinline hsecond
    have hread : readMessage (frame message ++ rest.flatMap frame) bufferLen first second =
        (some message, rest.flatMap frame) :=
      readMessage_whole hfirst hshort hbuffer hinline hsecond
    obtain ⟨rfl, rfl⟩ := by simpa [step, hframes, hread] using hstep
    refine ⟨rest, ?_, rfl, fun m hm => h.short m (mem_cons_of_mem _ hm)⟩
    have horder := h.order
    simp only [written, returned] at horder
    simp [written, returned, horder]

/-- **Step lemma**: whole calls keep the stream aligned. -/
theorem aligned_step (h : ∃ pending, Aligned replies stream pending)
    (hwhole : Whole stream input) (hstep : step stream input = some (reply, stream')) :
    ∃ pending, Aligned (replies ++ [reply]) stream' pending := by
  obtain ⟨_, h⟩ := h
  cases input with
  | write => exact aligned_write h hwhole hstep
  | read => exact aligned_read h hwhole hstep

/-- **Framing is faithful to whole calls**: in every run of them, the messages read are the first
of the messages written, in full and in order. -/
theorem framing_faithful {inputs : List Input} {replies : List Reply} {stream : Stream}
    (hrun : run step [] inputs = some (replies, stream)) (hguard : Guarded step Whole [] inputs) :
    returned replies <+: written replies := by
  obtain ⟨pending, haligned⟩ : ∃ pending, Aligned replies stream pending :=
    run_history_of_guarded (H := fun replies stream => ∃ pending, Aligned replies stream pending)
      (fun _ _ _ _ _ => aligned_step) hrun hguard ⟨[], rfl, rfl, by simp⟩
  rw [haligned.order]
  exact prefix_append _ _

theorem framing_faithful_sample :
    returned [.wrote [1, 2, 3], .read [1, 2, 3]] <+: written [.wrote [1, 2, 3], .read [1, 2, 3]] := by
  have hrun : run step [] [.write [1, 2, 3] (.accepted 2) (.accepted 3),
      .read 16 (.arrived 5) (.arrived 3)] = some ([.wrote [1, 2, 3], .read [1, 2, 3]], []) := by
    decide
  exact framing_faithful hrun (by decide)

/-- A message of three bytes arrives in two pieces: the reader returns its first byte, and takes
the other two for the length of the next. -/
theorem short_piece_returned : ∃ replies stream,
    run step [] [.write [1, 2, 3] (.accepted 2) (.accepted 3),
      .read 16 (.arrived 2) (.arrived 1), .read 16 (.arrived 2) (.arrived 16)] =
        some (replies, stream) ∧
      returned replies = [[1]] ∧ ¬ returned replies <+: written replies ∧
      fromLeBytes [2, 3] = 770 := by
  refine ⟨[.wrote [1, 2, 3], .read [1], .failed], [], by decide, by decide, by decide, by decide⟩

end Cellos.NetBroker.Framing
