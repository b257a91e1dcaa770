import Cellos.Lib

/-!
# Cellos.NetBroker.Dedup

Admission of remote requests (`c2c_receive.rs`, `c2c_dedup.rs`, `source_window.rs`).

The broker answers a request `Dispatch` when it is to be run, and otherwise with what it
knows about an earlier arrival.  The entry table keeps one entry for each request that was
let in, with its reply once there is one; it is small and its settled entries are evicted.
The source table keeps, for each node, the boot epoch it was last seen in and the highest
request id let in from that boot; nothing is ever removed from it.

A request is dispatched for one of two reasons (`Begun`): it lies beyond its source's window,
or it is idempotent and its entry's reply has expired.
-/

namespace Cellos.NetBroker

open Lib List

/-! ## keys, entries and windows -/

abbrev dedupCapacity : Nat := 16

def dedupTtlMs : Nat := 30000

abbrev sourceWindowCapacity : Nat := 16

/-- `NET_TCP_INLINE_DATA_MAX` less the Noise tag and the envelope's header. -/
def maxC2cPayload : Nat := 4096 - 256 - 16 - 112

/-- A `CellNetId`: 32 bytes. -/
abbrev CellNetId := BitVec 256

inductive RetryClass where
  | idempotent
  | conditional
  | never
  deriving DecidableEq

structure DedupKey where
  srcNode : CellNetId
  (srcBootEpoch requestId dstServerEpoch : Nat)
  deriving DecidableEq

def DedupKey.isValid (key : DedupKey) : Bool :=
  key.srcNode ≠ 0 && key.srcBootEpoch ≠ 0 && key.requestId ≠ 0

structure SourceWindow where
  node : CellNetId
  (bootEpoch highRequestId : Nat)

inductive C2cStatus where
  | success
  | busy
  | indeterminate
  | noService
  | timeout
  deriving DecidableEq

inductive DedupDecision where
  | dispatch
  | busy
  | replay (slot : Fin dedupCapacity)
  | indeterminate
  deriving DecidableEq

inductive DedupError where
  | stale
  | invalidTransition
  | payloadTooLarge
  deriving DecidableEq

inductive EntryState where
  | accepted
  | dispatched
  | completed
  | expiredNonReplayable
  deriving DecidableEq

/-- The payload is what is kept of the buffer: its first `payload_len` bytes. -/
structure Entry where
  key : DedupKey
  retryClass : RetryClass
  state : EntryState
  firstSeenMs : Nat
  status : C2cStatus
  payload : List UInt8

def Entry.accepted (key : DedupKey) (retryClass : RetryClass) (firstSeenMs : Nat) : Entry where
  key := key
  retryClass := retryClass
  state := .accepted
  firstSeenMs := firstSeenMs
  status := .indeterminate
  payload := []

def Entry.expired (entry : Entry) (nowMs : Nat) : Bool := dedupTtlMs ≤ nowMs - entry.firstSeenMs

/-- Accepted or dispatched, and not completed. -/
def Entry.inFlight (entry : Entry) : Bool := entry.state = .accepted || entry.state = .dispatched

/-! ## the cache -/

structure DedupCache where
  entries : Fin dedupCapacity → Option Entry
  sources : Fin sourceWindowCapacity → Option SourceWindow

open DedupCache

/-- The first index whose slot satisfies the test. -/
def position {n : Nat} {α : Type} (slots : Fin n → α) (test : α → Bool) : Option (Fin n) :=
  (List.finRange n).find? fun i => test (slots i)

namespace DedupCache

def new : DedupCache := ⟨fun _ => none, fun _ => none⟩

variable (cache : DedupCache) (key : DedupKey)

/-- The slot of a key with its entry. -/
def find : Option (Fin dedupCapacity × Entry) :=
  (position cache.entries fun slot => slot.any fun entry => entry.key = key).bind fun i =>
    (cache.entries i).map fun entry => (i, entry)

def put (i : Fin dedupCapacity) (slot : Option Entry) : DedupCache :=
  { cache with entries := Function.update cache.entries i slot }

def setSource (i : Fin sourceWindowCapacity) (window : SourceWindow) : DedupCache :=
  { cache with sources := Function.update cache.sources i (some window) }

def isStaleBoot : Bool :=
  (List.finRange sourceWindowCapacity).any fun i => (cache.sources i).any fun source =>
    source.node = key.srcNode && key.srcBootEpoch < source.bootEpoch

/-- The window of the key's source, made or moved to its boot epoch, or the answer. -/
def sourceSlot : Except DedupDecision (Fin sourceWindowCapacity × SourceWindow) :=
  match (position cache.sources fun slot => slot.any fun source =>
      source.node = key.srcNode).bind fun i => (cache.sources i).map fun source => (i, source) with
  | some (i, source) =>
    if key.srcBootEpoch < source.bootEpoch ∨
        (key.srcBootEpoch = source.bootEpoch ∧ key.requestId ≤ source.highRequestId) then
      .error .indeterminate
    else if source.bootEpoch < key.srcBootEpoch then
      .ok (i, ⟨key.srcNode, key.srcBootEpoch, 0⟩)
    else
      .ok (i, source)
  | none =>
    match position cache.sources Option.isNone with
    | none => .error .busy
    | some i => .ok (i, ⟨key.srcNode, key.srcBootEpoch, 0⟩)

def evictableSlot (nowMs : Nat) : Option (Fin dedupCapacity) :=
  position cache.entries fun slot => slot.any fun entry =>
    (entry.state = .completed || entry.state = .expiredNonReplayable) && entry.expired nowMs

/-- The answer to a request whose key has an entry. -/
def classify (i : Fin dedupCapacity) (entry : Entry) (key : DedupKey)
    (retryClass : RetryClass) (nowMs : Nat) : DedupDecision × DedupCache :=
  if entry.retryClass ≠ retryClass then (.indeterminate, cache)
  else
    match entry.state, entry.expired nowMs, retryClass with
    | .accepted, _, _ | .dispatched, _, _ => (.busy, cache)
    | .completed, false, _ => (.replay i, cache)
    | .completed, true, .idempotent =>
      (.dispatch, cache.put i (some (Entry.accepted key retryClass nowMs)))
    | .completed, true, _ =>
      (.indeterminate,
        cache.put i (some { entry with state := .expiredNonReplayable, payload := [] }))
    | .expiredNonReplayable, _, _ => (.indeterminate, cache)

/-- The answer to a request whose key has none. -/
def enter (retryClass : RetryClass) (nowMs : Nat) : DedupDecision × DedupCache :=
  match cache.sourceSlot key with
  | .error decision => (decision, cache)
  | .ok (i, window) =>
    -- The window is in the table from here on, whether or not there is room for an entry.
    let seen := cache.setSource i window
    match (position seen.entries Option.isNone).or (seen.evictableSlot nowMs) with
    | none => (.busy, seen)
    | some j =>
      (.dispatch, (seen.put j (some (Entry.accepted key retryClass nowMs))).setSource i
        { window with highRequestId := key.requestId })

def begin (retryClass : RetryClass) (nowMs : Nat) : DedupDecision × DedupCache :=
  if key.isValid = false then (.indeterminate, cache)
  else if cache.isStaleBoot key then (.indeterminate, cache)
  else
    match cache.find key with
    | some (i, entry) => cache.classify i entry key retryClass nowMs
    | none => cache.enter key retryClass nowMs

def markDispatched : Except DedupError DedupCache := do
  let (i, entry) ← demand (cache.find key) .stale
  require (entry.state = .accepted) .invalidTransition
  pure (cache.put i (some { entry with state := .dispatched }))

def complete (status : C2cStatus) (payload : List UInt8) : Except DedupError DedupCache := do
  require (payload.length ≤ maxC2cPayload) .payloadTooLarge
  let (i, entry) ← demand (cache.find key) .stale
  require (entry.inFlight = true) .invalidTransition
  pure (cache.put i (some { entry with payload, status, state := .completed }))

def cancelAdmitted : DedupCache :=
  match cache.find key with
  | some (i, entry) => if entry.state = .accepted then cache.put i none else cache
  | none => cache

def retireEntries : DedupCache := { cache with entries := fun _ => none }

end DedupCache

/-! ## the receive gate -/

inductive EnvelopeKind where
  | lookup
  | request
  | response
  | busy
  | indeterminate
  | cancel
  | heartbeat
  deriving DecidableEq

/-- What the gate reads of a decoded envelope. -/
structure C2cEnvelope where
  kind : EnvelopeKind
  retryClass : RetryClass
  requestId : Nat
  srcNode : CellNetId
  (srcBootEpoch dstServerEpoch : Nat)

def C2cEnvelope.key (envelope : C2cEnvelope) : DedupKey where
  srcNode := envelope.srcNode
  srcBootEpoch := envelope.srcBootEpoch
  requestId := envelope.requestId
  dstServerEpoch := envelope.dstServerEpoch

inductive ReplaceServerError where
  | nonIncreasingEpoch
  deriving DecidableEq

structure ReceiveGate where
  currentServerEpoch : Nat
  dedup : DedupCache

namespace ReceiveGate

def new (currentServerEpoch : Nat) : ReceiveGate := ⟨currentServerEpoch, DedupCache.new⟩

def replaceServer (gate : ReceiveGate) (next : Nat) : Except ReplaceServerError ReceiveGate :=
  if next ≤ gate.currentServerEpoch then .error .nonIncreasingEpoch
  else .ok ⟨next, gate.dedup.retireEntries⟩

def begin (gate : ReceiveGate) (envelope : C2cEnvelope) (nowMs : Nat) :
    DedupDecision × ReceiveGate :=
  if envelope.kind ≠ .request ∨ gate.currentServerEpoch ≠ envelope.dstServerEpoch then
    (.indeterminate, gate)
  else
    let (decision, dedup) := gate.dedup.begin envelope.key envelope.retryClass nowMs
    (decision, { gate with dedup })

end ReceiveGate

/-! ## runs -/

/-- What happens to the gate and its cache. -/
inductive Input where
  | receive (envelope : C2cEnvelope) (nowMs : Nat)
  | begin (key : DedupKey) (retryClass : RetryClass) (nowMs : Nat)
  | markDispatched (key : DedupKey)
  | complete (key : DedupKey) (status : C2cStatus) (payload : List UInt8)
  | cancelAdmitted (key : DedupKey)
  | replaceServer (next : Nat)

inductive Reply where
  | decided (key : DedupKey) (retryClass : RetryClass) (decision : DedupDecision)
  | noted (error : Option DedupError)
  | replaced (error : Option ReplaceServerError)
  deriving DecidableEq

/-- A cache operation that may be refused. -/
def ReceiveGate.update (gate : ReceiveGate) (result : Except DedupError DedupCache) :
    Reply × ReceiveGate :=
  match result with
  | .ok dedup => (.noted none, { gate with dedup })
  | .error error => (.noted (some error), gate)

def step (gate : ReceiveGate) : Input → Option (Reply × ReceiveGate)
  | .receive envelope nowMs =>
    let (decision, gate') := gate.begin envelope nowMs
    some (.decided envelope.key envelope.retryClass decision, gate')
  | .begin key retryClass nowMs =>
    let (decision, dedup) := gate.dedup.begin key retryClass nowMs
    some (.decided key retryClass decision, { gate with dedup })
  | .markDispatched key => some (gate.update (gate.dedup.markDispatched key))
  | .complete key status payload => some (gate.update (gate.dedup.complete key status payload))
  | .cancelAdmitted key => some (.noted none, { gate with dedup := gate.dedup.cancelAdmitted key })
  | .replaceServer next =>
    match gate.replaceServer next with
    | .ok gate' => some (.replaced none, gate')
    | .error error => some (.replaced (some error), gate)

/-! ## what a request's arrival does -/

variable {cache cache' : DedupCache} {key key' : DedupKey} {retryClass retryClass' : RetryClass}
  {nowMs : Nat} {decision : DedupDecision} {entry : Entry} {window : SourceWindow}
  {replies : List Reply} {reply : Reply} {gate gate' : ReceiveGate} {input : Input}
  {i j : Fin dedupCapacity}

theorem position_eq_some {α : Type} {slots : Fin n → α} {test : α → Bool} {i : Fin n}
    (h : position slots test = some i) : test (slots i) = true :=
  List.find?_some (p := fun i => test (slots i)) h

/-- What at-most-once is about: a request of a node's boot. -/
def DedupKey.request (key : DedupKey) : CellNetId × Nat × Nat :=
  (key.srcNode, key.srcBootEpoch, key.requestId)

/-- The source's window has reached the request: it is not beyond it any more. -/
def SourceWindow.Reached (window : SourceWindow) (request : CellNetId × Nat × Nat) : Prop :=
  window.node = request.1 ∧ (request.2.1 < window.bootEpoch ∨
    request.2.1 = window.bootEpoch ∧ request.2.2 ≤ window.highRequestId)

def DedupCache.Reached (cache : DedupCache) (request : CellNetId × Nat × Nat) : Prop :=
  ∃ i window, cache.sources i = some window ∧ window.Reached request

/-- The window that a request from beyond it moves to the request's boot. -/
structure Moves (cache : DedupCache) (key : DedupKey) (i : Fin sourceWindowCapacity)
    (window : SourceWindow) : Prop where
  node : window.node = key.srcNode
  boot : window.bootEpoch = key.srcBootEpoch
  beyond : ∀ old, cache.sources i = some old → old.node = key.srcNode ∧
    (old.bootEpoch < key.srcBootEpoch ∨ old.bootEpoch = key.srcBootEpoch ∧
      old.highRequestId < key.requestId ∧ old.highRequestId ≤ window.highRequestId)
  made : cache.sources i = none → ∀ j other, cache.sources j = some other → other.node ≠ key.srcNode

/-- The entries are those of before, in some state, or fewer. -/
def Fewer (cache cache' : DedupCache) : Prop :=
  ∀ i entry', cache'.entries i = some entry' → ∃ entry, cache.entries i = some entry ∧
    entry.key = entry'.key ∧ entry.retryClass = entry'.retryClass

/-- No entry in flight has been touched. -/
def Spared (cache cache' : DedupCache) : Prop :=
  ∀ i entry, cache.entries i = some entry → entry.inFlight = true → cache'.entries i = some entry

/-- What the cache does with a request. -/
inductive Begun (cache : DedupCache) (key : DedupKey) (retryClass : RetryClass) (nowMs : Nat) :
    DedupDecision → DedupCache → Prop where
  | refused {decision : DedupDecision} {cache' : DedupCache} (hdecision : decision ≠ .dispatch)
      (hsources : cache'.sources = cache.sources) (hfewer : Fewer cache cache')
      (hspared : Spared cache cache') :
      Begun cache key retryClass nowMs decision cache'
  | seen {i : Fin sourceWindowCapacity} {window : SourceWindow}
      (hmoves : Moves cache key i window) :
      Begun cache key retryClass nowMs .busy (cache.setSource i window)
  | again {i : Fin dedupCapacity} {entry : Entry} (hentry : cache.entries i = some entry)
      (hkey : entry.key = key) (hclass : retryClass = .idempotent)
      (hentryClass : entry.retryClass = .idempotent) (hsettled : entry.inFlight = false)
      (hboot : ∀ j window, cache.sources j = some window → window.node = key.srcNode →
        window.bootEpoch ≤ key.srcBootEpoch) :
      Begun cache key retryClass nowMs .dispatch
        (cache.put i (some (Entry.accepted key retryClass nowMs)))
  | fresh {i : Fin sourceWindowCapacity} {j : Fin dedupCapacity} {window : SourceWindow}
      (hmoves : Moves cache key i window) (hhigh : window.highRequestId = key.requestId)
      (hsettled : ∀ entry, cache.entries j = some entry → entry.inFlight = false) :
      Begun cache key retryClass nowMs .dispatch
        ((cache.put j (some (Entry.accepted key retryClass nowMs))).setSource i window)

/-- No boot of the request's source later than the request's has been seen. -/
def DedupCache.Current (cache : DedupCache) (key : DedupKey) : Prop :=
  ∀ j window, cache.sources j = some window → window.node = key.srcNode →
    window.bootEpoch ≤ key.srcBootEpoch

theorem Fewer.refl (cache : DedupCache) : Fewer cache cache := fun _ entry h => ⟨entry, h, rfl, rfl⟩

theorem Spared.refl (cache : DedupCache) : Spared cache cache := fun _ _ h _ => h

theorem Begun.unchanged (hdecision : decision ≠ .dispatch) :
    Begun cache key retryClass nowMs decision cache :=
  .refused hdecision rfl (.refl cache) (.refl cache)

theorem Spared.put (slot : Option Entry)
    (h : ∀ entry, cache.entries i = some entry → entry.inFlight = false) :
    Spared cache (cache.put i slot) := by
  intro j entry hj hflight
  have hij : j ≠ i := by
    rintro rfl
    simp [h entry hj] at hflight
  simpa [DedupCache.put, hij] using hj

theorem Fewer.put (h : cache.entries i = some entry)
    (hkey : entry'.key = entry.key) (hclass : entry'.retryClass = entry.retryClass) :
    Fewer cache (cache.put i (some entry')) := by
  intro j found hj
  by_cases hij : j = i
  · subst hij
    obtain rfl : entry' = found := by simpa [DedupCache.put] using hj
    exact ⟨entry, h, hkey.symm, hclass.symm⟩
  · exact ⟨found, by simpa [DedupCache.put, hij] using hj, rfl, rfl⟩

theorem DedupCache.find_eq_some (h : cache.find key = some (i, entry)) :
    cache.entries i = some entry ∧ entry.key = key := by
  obtain ⟨j, hj, hmap⟩ := Option.bind_eq_some_iff.mp h
  obtain ⟨_, hfound, hpair⟩ := Option.map_eq_some_iff.mp hmap
  cases hpair
  have htest := position_eq_some hj
  rw [hfound] at htest
  exact ⟨hfound, by simpa using htest⟩

/-- What a source slot is: a window that the request lies beyond, moved to its boot. -/
theorem DedupCache.sourceSlot_eq_ok
    (h : cache.sourceSlot key = .ok (i, window)) : Moves cache key i window := by
  unfold sourceSlot at h
  split at h
  · next j source hfind =>
    obtain ⟨k, hk, hmap⟩ := Option.bind_eq_some_iff.mp hfind
    obtain ⟨found, hfound, hpair⟩ := Option.map_eq_some_iff.mp hmap
    obtain ⟨rfl, rfl⟩ := by simpa using hpair
    have hnode : found.node = key.srcNode := by
      have htest := position_eq_some hk
      rw [hfound] at htest
      simpa using htest
    split at h
    · contradiction
    next hbeyond =>
    split at h
    · next hlater =>
      cases h
      exact ⟨rfl, rfl, fun old hold => by simp_all, by simp [hfound]⟩
    · next hlater =>
      obtain ⟨rfl, rfl⟩ := by simpa using h
      refine ⟨hnode, by omega, fun old hold => ?_, by simp [hfound]⟩
      obtain rfl : found = old := by simpa [hfound] using hold
      exact ⟨hnode, by omega⟩
  · next hfind =>
    have hnone : ∀ j other, cache.sources j = some other → other.node ≠ key.srcNode := by
      intro j other hother hnode
      cases hpos : position cache.sources fun slot => slot.any fun source =>
          source.node = key.srcNode with
      | none =>
        have := List.find?_eq_none.mp hpos j (mem_finRange j)
        simp [hother, hnode] at this
      | some k =>
        have htest := position_eq_some hpos
        cases hk : cache.sources k with
        | none => simp [hk] at htest
        | some => simp [hpos, hk] at hfind
    split at h
    · contradiction
    next j hfree =>
    obtain ⟨rfl, rfl⟩ := by simpa using h
    have hslot : cache.sources j = none := by simpa using position_eq_some hfree
    exact ⟨rfl, rfl, by simp [hslot], fun _ => hnone⟩

theorem DedupCache.sourceSlot_eq_error (h : cache.sourceSlot key = .error decision) :
    decision ≠ .dispatch := by
  unfold sourceSlot at h
  split at h
  · split at h
    · exact Except.error.inj h ▸ by simp
    · split at h <;> contradiction
  · split at h
    · exact Except.error.inj h ▸ by simp
    · contradiction

theorem classify_begun (hentry : cache.entries i = some entry)
    (hkey : entry.key = key) (hboot : cache.Current key) :
    Begun cache key retryClass nowMs (cache.classify i entry key retryClass nowMs).1
      (cache.classify i entry key retryClass nowMs).2 := by
  unfold classify
  split
  · exact .unchanged (by simp)
  next hclass =>
  rw [not_not] at hclass
  split
  · exact .unchanged (by simp)
  · exact .unchanged (by simp)
  · exact .unchanged (by simp)
  · next hstate _ =>
    exact .again hentry hkey rfl hclass (by simp [Entry.inFlight, hstate]) hboot
  · next hstate _ _ =>
    exact .refused (by simp) rfl (.put hentry rfl rfl)
      (.put _ fun e he => by simp_all [Entry.inFlight])
  · exact .unchanged (by simp)

theorem room_settled
    (h : (position cache.entries Option.isNone).or (cache.evictableSlot nowMs) = some j)
    (entry : Entry) (hentry : cache.entries j = some entry) : entry.inFlight = false := by
  rcases Option.or_eq_some_iff.mp h with hfree | ⟨-, hevict⟩
  · have := position_eq_some hfree
    simp [hentry] at this
  have := position_eq_some hevict
  rw [hentry] at this
  simp only [Option.any_some, Bool.and_eq_true, Bool.or_eq_true, decide_eq_true_eq] at this
  obtain ⟨hstate | hstate, -⟩ := this <;> simp [Entry.inFlight, hstate]

theorem enter_begun : Begun cache key retryClass nowMs (cache.enter key retryClass nowMs).1
      (cache.enter key retryClass nowMs).2 := by
  unfold enter
  split
  · next hslot => exact .unchanged (sourceSlot_eq_error hslot)
  next i window hslot =>
  have hmoves := sourceSlot_eq_ok hslot
  dsimp only
  split
  · exact .seen hmoves
  next j hj =>
  -- The window is written twice; what stays has the request's id as its highest.
  have hlast : ((cache.setSource i window).put j
      (some (Entry.accepted key retryClass nowMs))).setSource i
        { window with highRequestId := key.requestId } =
      (cache.put j (some (Entry.accepted key retryClass nowMs))).setSource i
        { window with highRequestId := key.requestId } := by
    simp [setSource, put]
  rw [hlast]
  refine .fresh { hmoves with beyond := fun old hold => ?_ } rfl ?_
  · obtain ⟨hnode, hbeyond⟩ := hmoves.beyond old hold
    refine ⟨hnode, ?_⟩
    show old.bootEpoch < key.srcBootEpoch ∨ old.bootEpoch = key.srcBootEpoch ∧
      old.highRequestId < key.requestId ∧ old.highRequestId ≤ key.requestId
    omega
  · exact room_settled hj

/-- **What an arrival does**, said once. -/
theorem begin_begun (cache : DedupCache) (key : DedupKey) (retryClass : RetryClass) (nowMs : Nat) :
    Begun cache key retryClass nowMs (cache.begin key retryClass nowMs).1
      (cache.begin key retryClass nowMs).2 := by
  unfold begin
  split
  · exact .unchanged (by simp)
  split
  · exact .unchanged (by simp)
  next hstale =>
  have hboot : cache.Current key := by
    intro j window hj hnode
    by_contra hlt
    apply hstale
    unfold isStaleBoot
    rw [any_eq_true]
    refine ⟨j, mem_finRange j, ?_⟩
    simp only [hj, Option.any_some, hnode, decide_true, Bool.true_and, decide_eq_true_eq]
    omega
  split
  · next hfind =>
    obtain ⟨hentry, hkey⟩ := find_eq_some hfind
    exact classify_begun hentry hkey hboot
  · exact enter_begun

theorem receive_begun (gate : ReceiveGate) (envelope : C2cEnvelope) (nowMs : Nat) :
    Begun gate.dedup envelope.key envelope.retryClass nowMs (gate.begin envelope nowMs).1
      (gate.begin envelope nowMs).2.dedup := by
  unfold ReceiveGate.begin
  split
  · exact .unchanged (by simp)
  · exact begin_begun gate.dedup _ _ nowMs

/-- Admission never evicts an entry in flight. -/
theorem Begun.spared (h : Begun cache key retryClass nowMs decision cache') :
    Spared cache cache' := by
  cases h with
  | refused _ _ _ hspared => exact hspared
  | seen => exact .refl cache
  | again =>
    exact .put _ fun e he => by simp_all
  | @fresh _ _ _ _ _ hsettled =>
    exact Spared.put (some (Entry.accepted key retryClass nowMs)) hsettled

/-! ## what the two tables know -/

/-- The invariant of the cache. -/
structure DedupCache.Sound (cache : DedupCache) : Prop where
  windows : KeysApart SourceWindow.node cache.sources
  reached : ∀ i entry, cache.entries i = some entry → cache.Reached entry.key.request
  single : KeysApart (fun entry : Entry => entry.key.request) cache.entries

theorem Moves.reached (hmoves : Moves cache key i window) (h : cache.Reached request) :
    (cache.setSource i window).Reached request := by
  obtain ⟨j, old, hj, hnode, hreached⟩ := h
  by_cases hji : j = i
  · subst hji
    obtain ⟨hold, hbeyond⟩ := hmoves.beyond old hj
    refine ⟨j, window, by simp [setSource], ?_, ?_⟩
    · rw [hmoves.node, ← hold, hnode]
    · rw [hmoves.boot]
      omega
  · exact ⟨j, old, by simpa [setSource, hji] using hj, hnode, hreached⟩

variable (hsound : cache.Sound) (hmoves : Moves cache key i window)

include hsound hmoves

/-- The window of the request's source is the one that moves, and the request lies beyond it. -/
theorem Moves.source (hj : cache.sources j = some other)
    (hnode : other.node = key.srcNode) : j = i ∧ (other.bootEpoch < key.srcBootEpoch ∨
      other.bootEpoch = key.srcBootEpoch ∧ other.highRequestId < key.requestId) := by
  cases hi : cache.sources i with
  | none => exact absurd hnode (hmoves.made hi j other hj)
  | some old =>
    obtain ⟨hold, hbeyond⟩ := hmoves.beyond old hi
    obtain rfl : j = i := hsound.windows j i other old hj hi (hnode.trans hold.symm)
    obtain rfl : other = old := by simpa [hj] using hi
    exact ⟨rfl, by omega⟩

/-- A request from beyond its source's window has not been reached. -/
theorem Moves.not_reached : ¬ cache.Reached key.request := by
  rintro ⟨j, other, hj, hnode, hreached⟩
  obtain ⟨-, hbeyond⟩ := hmoves.source hsound hj hnode
  simp only [DedupKey.request] at hreached
  omega

theorem Moves.current : cache.Current key := by
  intro j other hj hnode
  obtain ⟨-, hbeyond⟩ := hmoves.source hsound hj hnode
  omega

theorem Moves.windows : KeysApart SourceWindow.node (cache.setSource i window).sources := by
  refine KeysApart.update hsound.windows fun l other hne hl hsame => hne ?_
  exact (hmoves.source hsound hl (hsame.trans hmoves.node)).1

omit hsound hmoves

/-! ## the history of dispatches -/

/-- Two dispatches in this order: they are of different requests unless both are idempotent, and
of the same node only in the order of its boots. -/
def Apart (r r' : Reply) : Prop :=
  ∀ key retryClass key' retryClass', r = .decided key retryClass .dispatch →
    r' = .decided key' retryClass' .dispatch →
      (key.request = key'.request → retryClass = .idempotent ∧ retryClass' = .idempotent) ∧
      (key.srcNode = key'.srcNode → key.srcBootEpoch ≤ key'.srcBootEpoch)

/-- What the tables know of the dispatches made so far. -/
structure Known (replies : List Reply) (cache : DedupCache) : Prop where
  sound : cache.Sound
  reached : ∀ key retryClass, .decided key retryClass .dispatch ∈ replies →
    cache.Reached key.request
  classes : ∀ key retryClass, .decided key retryClass .dispatch ∈ replies → ∀ i entry,
    cache.entries i = some entry → entry.key.request = key.request → entry.retryClass = retryClass
  apart : replies.Pairwise Apart

variable (h : Known replies cache)

include h

/-- A step that dispatches nothing and only settles or drops entries. -/
theorem Known.fewer (hsources : cache'.sources = cache.sources) (hfewer : Fewer cache cache')
    (hreply : ∀ key retryClass, reply ≠ .decided key retryClass .dispatch) :
    Known (replies ++ [reply]) cache' := by
  have hreached : ∀ request, cache.Reached request → cache'.Reached request := by
    rintro request ⟨i, window, hi, hwindow⟩
    exact ⟨i, window, hsources ▸ hi, hwindow⟩
  have hold : ∀ key retryClass, .decided key retryClass .dispatch ∈ replies ++ [reply] →
      .decided key retryClass .dispatch ∈ replies := by
    intro key retryClass hmem
    rcases mem_append.mp hmem with hmem | hmem
    · exact hmem
    · exact absurd (mem_singleton.mp hmem).symm (hreply key retryClass)
  refine ⟨⟨?_, ?_, ?_⟩, ?_, ?_, ?_⟩
  · rw [hsources]
    exact h.sound.windows
  · intro i entry' hi
    obtain ⟨entry, hentry, hkey, -⟩ := hfewer i entry' hi
    exact hreached _ (hkey ▸ h.sound.reached i entry hentry)
  · intro i j entry entry' hi hj hsame
    obtain ⟨old, hold, hkey, -⟩ := hfewer i entry hi
    obtain ⟨old', hold', hkey', -⟩ := hfewer j entry' hj
    exact h.sound.single i j old old' hold hold' (by simpa [hkey, hkey'] using hsame)
  · exact fun key retryClass hmem => hreached _ (h.reached key retryClass (hold _ _ hmem))
  · intro key retryClass hmem i entry' hi hsame
    obtain ⟨entry, hentry, hkey, hclass⟩ := hfewer i entry' hi
    rw [← hclass]
    exact h.classes key retryClass (hold _ _ hmem) i entry hentry (hkey ▸ hsame)
  · exact pairwise_concat h.apart fun r _ key retryClass key' retryClass' _ heq =>
      absurd heq (hreply key' retryClass')

theorem Known.setSource
    (hmoves : Moves cache key i window) : Known replies (cache.setSource i window) where
  sound := ⟨hmoves.windows h.sound, fun j entry hj => hmoves.reached (h.sound.reached j entry hj),
    h.sound.single⟩
  reached key retryClass hmem := hmoves.reached (h.reached key retryClass hmem)
  classes := h.classes
  apart := h.apart

/-- A request whose source's window has reached it is dispatched into a slot. -/
theorem Known.dispatched (hreached : cache.Reached key.request)
    (honly : ∀ i entry, i ≠ j → cache.entries i = some entry → entry.key.request ≠ key.request)
    (hearlier : ∀ key' retryClass', .decided key' retryClass' .dispatch ∈ replies →
      (key'.request = key.request → retryClass' = .idempotent ∧ retryClass = .idempotent) ∧
      (key'.srcNode = key.srcNode → key'.srcBootEpoch ≤ key.srcBootEpoch))
    : Known (replies ++ [.decided key retryClass .dispatch])
      (cache.put j (some (Entry.accepted key retryClass nowMs))) := by
  have hmem_iff : ∀ key' retryClass',
      .decided key' retryClass' .dispatch ∈ replies ++ [.decided key retryClass .dispatch] →
        .decided key' retryClass' .dispatch ∈ replies ∨ key' = key ∧ retryClass' = retryClass := by
    simp
  refine ⟨⟨h.sound.windows, ?_, ?_⟩, ?_, ?_, ?_⟩
  · intro i entry hi
    rcases update_eq_some hi with ⟨rfl, rfl⟩ | ⟨-, hi'⟩
    · exact hreached
    · exact h.sound.reached i entry hi'
  · exact KeysApart.update h.sound.single honly
  · intro key' retryClass' hmem
    rcases hmem_iff key' retryClass' hmem with hmem | ⟨rfl, rfl⟩
    · exact h.reached key' retryClass' hmem
    · exact hreached
  · intro key' retryClass' hmem i entry hi hsame
    rcases hmem_iff key' retryClass' hmem with hmem | ⟨rfl, rfl⟩
    · rcases update_eq_some hi with ⟨rfl, rfl⟩ | ⟨-, hi'⟩
      · obtain ⟨hold, hnew⟩ := (hearlier key' retryClass' hmem).1 hsame.symm
        show retryClass = retryClass'
        rw [hold, hnew]
      · exact h.classes key' retryClass' hmem i entry hi' hsame
    · rcases update_eq_some hi with ⟨rfl, rfl⟩ | ⟨hij, hi'⟩
      · rfl
      · exact absurd hsame (honly i entry hij hi')
  · refine pairwise_concat h.apart ?_
    rintro r hr key₁ class₁ key₂ class₂ rfl heq
    cases heq
    exact hearlier key₁ class₁ hr

/-- An earlier dispatch of the node was of a boot that has been seen. -/
theorem Known.boot_le (hmem : .decided key' retryClass' .dispatch ∈ replies)
    (hboot : cache.Current key) (hnode : key'.srcNode = key.srcNode) :
    key'.srcBootEpoch ≤ key.srcBootEpoch := by
  obtain ⟨j, window, hj, hwindow, hreached⟩ := h.reached key' retryClass' hmem
  have hle := hboot j window hj (hwindow.trans hnode)
  simp only [DedupKey.request] at hreached
  omega

/-- **Step lemma** for arrivals. -/
theorem Known.begun (hbegun : Begun cache key retryClass nowMs decision cache') :
    Known (replies ++ [.decided key retryClass decision]) cache' := by
  cases hbegun with
  | refused hdecision hsources hfewer =>
    refine h.fewer hsources hfewer fun key' class' heq => hdecision ?_
    rw [Reply.decided.injEq] at heq
    exact heq.2.2
  | @seen _ _ hmoves =>
    exact (h.setSource hmoves).fewer rfl (.refl _) (by simp)
  | @again i entry hentry hkey hclass hentryClass _ hboot =>
    subst hkey
    refine h.dispatched (h.sound.reached i entry hentry) ?_ ?_
    · intro k other hki hk hsame
      exact hki (h.sound.single k i other entry hk hentry hsame)
    · intro key' retryClass' hmem
      refine ⟨fun hsame => ⟨?_, hclass⟩, h.boot_le hmem hboot⟩
      rw [← h.classes key' retryClass' hmem i entry hentry hsame.symm, hentryClass]
  | @fresh i _ window hmoves hhigh =>
    have hnot := hmoves.not_reached h.sound
    refine (h.setSource hmoves).dispatched ?_ ?_ ?_
    · refine ⟨i, window, by simp [DedupCache.setSource], hmoves.node, .inr ⟨hmoves.boot.symm, ?_⟩⟩
      exact hhigh.ge
    · intro k other _ hk hsame
      exact hnot (hsame ▸ h.sound.reached k other hk)
    · intro key' retryClass' hmem
      refine ⟨fun hsame => ?_, h.boot_le hmem (hmoves.current h.sound)⟩
      exact absurd (hsame ▸ h.reached key' retryClass' hmem) hnot

omit h

/-! ## the other steps -/

theorem markDispatched_fewer (h : cache.markDispatched key = .ok cache') :
    cache'.sources = cache.sources ∧ Fewer cache cache' := by
  simp only [markDispatched, bind_eq_ok, demand_eq_ok, pure_eq_ok] at h
  obtain ⟨⟨_, _⟩, hfind, _, -, rfl⟩ := h
  exact ⟨rfl, .put (find_eq_some hfind).1 rfl rfl⟩

theorem complete_fewer (h : cache.complete key status payload = .ok cache') :
    cache'.sources = cache.sources ∧ Fewer cache cache' := by
  simp only [complete, bind_eq_ok, demand_eq_ok, pure_eq_ok] at h
  obtain ⟨_, -, ⟨_, _⟩, hfind, _, -, rfl⟩ := h
  exact ⟨rfl, .put (find_eq_some hfind).1 rfl rfl⟩

theorem cancelAdmitted_fewer (cache : DedupCache) (key : DedupKey) :
    (cache.cancelAdmitted key).sources = cache.sources ∧
      Fewer cache (cache.cancelAdmitted key) := by
  unfold cancelAdmitted
  split
  · next i _ _ =>
    split
    · refine ⟨rfl, fun j found hj => ⟨found, ?_, rfl, rfl⟩⟩
      by_cases hji : j = i
      · subst hji
        simp [put] at hj
      · simpa [put, hji] using hj
    · exact ⟨rfl, .refl cache⟩
  · exact ⟨rfl, .refl cache⟩

/-- **Step lemma**: what the tables know stays true. -/
theorem known_step (h : Known replies gate.dedup) (hstep : step gate input = some (reply, gate')) :
    Known (replies ++ [reply]) gate'.dedup := by
  have hupdate : ∀ result : Except DedupError DedupCache, (∀ dedup, result = .ok dedup →
      dedup.sources = gate.dedup.sources ∧ Fewer gate.dedup dedup) →
      gate.update result = (reply, gate') → Known (replies ++ [reply]) gate'.dedup := by
    intro result hresult hout
    unfold ReceiveGate.update at hout
    split at hout
    · next dedup =>
      cases hout
      obtain ⟨hsources, hfewer⟩ := hresult dedup rfl
      exact h.fewer hsources hfewer (by simp)
    · cases hout
      exact h.fewer rfl (.refl _) (by simp)
  cases input with
  | receive _ nowMs =>
    cases hstep
    exact h.begun (receive_begun gate _ nowMs)
  | begin _ _ nowMs =>
    cases hstep
    exact h.begun (begin_begun _ _ _ nowMs)
  | markDispatched =>
    exact hupdate _ (fun _ => markDispatched_fewer) (Option.some.inj hstep)
  | complete =>
    exact hupdate _ (fun _ => complete_fewer) (Option.some.inj hstep)
  | cancelAdmitted key =>
    cases hstep
    obtain ⟨hsources, hfewer⟩ := cancelAdmitted_fewer gate.dedup key
    exact h.fewer hsources hfewer (by simp)
  | replaceServer next =>
    simp only [step, ReceiveGate.replaceServer] at hstep
    split at hstep
    · next hreplace =>
      cases hstep
      split at hreplace
      · contradiction
      · cases hreplace
        exact h.fewer rfl (fun i entry hi => by simp [retireEntries] at hi) (by simp)
    · cases hstep
      exact h.fewer rfl (.refl _) (by simp)

/-- An arrival, at the gate or at the cache itself. -/
def Input.arrives : Input → Bool
  | .receive .. | .begin .. => true
  | _ => false

theorem arrives_spared (harrives : input.arrives = true)
    (hstep : step gate input = some (reply, gate')) : Spared gate.dedup gate'.dedup := by
  cases input with
  | receive _ nowMs =>
    cases hstep
    exact (receive_begun gate _ nowMs).spared
  | begin _ _ nowMs =>
    cases hstep
    exact (begin_begun _ _ _ nowMs).spared
  | markDispatched | complete | cancelAdmitted | replaceServer => contradiction

/-- **Requests are dispatched at most once**: a dispatch of a request that is not idempotent is
the only dispatch of that node's, boot's and id's request, no later dispatch of the node is of an
older boot, and an arrival leaves every entry in flight as it is. -/
theorem requests_at_most_once {epoch : Nat} {inputs : List Input} {replies : List Reply}
    {gate : ReceiveGate} (hrun : run step (.new epoch) inputs = some (replies, gate)) :
    (∀ before after key retryClass, replies = before ++ .decided key retryClass .dispatch :: after →
        (retryClass ≠ .idempotent → ∀ key' retryClass', key'.request = key.request →
          .decided key' retryClass' .dispatch ∉ before ++ after) ∧
        (∀ key' retryClass', .decided key' retryClass' .dispatch ∈ after →
          key'.srcNode = key.srcNode → key.srcBootEpoch ≤ key'.srcBootEpoch)) ∧
    (∀ input reply gate', input.arrives = true → step gate input = some (reply, gate') →
      ∀ i entry, gate.dedup.entries i = some entry →
        entry.state = .accepted ∨ entry.state = .dispatched →
          gate'.dedup.entries i = some entry) := by
  have hknown : Known replies gate.dedup :=
    run_history (H := fun replies gate => Known replies gate.dedup)
      (fun _ _ _ _ _ => known_step) hrun
      ⟨⟨.empty, by simp [ReceiveGate.new, new], .empty⟩, by simp, by simp, .nil⟩
  constructor
  · rintro before after key retryClass rfl
    obtain ⟨-, hcons, hbefore⟩ := pairwise_append.mp hknown.apart
    obtain ⟨hafter, -⟩ := pairwise_cons.mp hcons
    constructor
    · intro hclass key' retryClass' hsame hmem
      rcases mem_append.mp hmem with hmem | hmem
      · have hpair := hbefore _ hmem _ mem_cons_self key' retryClass' key retryClass rfl rfl
        exact hclass (hpair.1 hsame).2
      · have hpair := hafter _ hmem key retryClass key' retryClass' rfl rfl
        exact hclass (hpair.1 hsame.symm).1
    · intro key' retryClass' hmem hnode
      exact (hafter _ hmem key retryClass key' retryClass' rfl rfl).2 hnode.symm
  · intro input reply gate' harrives hstep i entry hentry hstate
    refine arrives_spared harrives hstep i entry hentry ?_
    rcases hstate with hstate | hstate <;> simp [Entry.inFlight, hstate]

/-- A request of class `never` arrives, is cancelled and arrives again. -/
theorem requests_at_most_once_cancelled : ∃ replies gate,
    run step (.new 1) [.begin ⟨7, 1, 1, 1⟩ .never 0, .cancelAdmitted ⟨7, 1, 1, 1⟩,
      .begin ⟨7, 1, 1, 1⟩ .never 5] = some (replies, gate) ∧
    .decided ⟨7, 1, 1, 1⟩ .never .dispatch ∈ replies.take 1 ∧
    .decided ⟨7, 1, 1, 1⟩ .never .dispatch ∉ [] ++ replies.drop 1 := by
  obtain ⟨replies, gate, hrun, hfirst⟩ : ∃ replies gate,
      run step (.new 1) [.begin ⟨7, 1, 1, 1⟩ .never 0, .cancelAdmitted ⟨7, 1, 1, 1⟩,
        .begin ⟨7, 1, 1, 1⟩ .never 5] = some (replies, gate) ∧
      replies.take 1 = [.decided ⟨7, 1, 1, 1⟩ .never .dispatch] := by
    decide +kernel
  refine ⟨replies, gate, hrun, by simp [hfirst], ?_⟩
  have hsplit : replies = [] ++ .decided ⟨7, 1, 1, 1⟩ .never .dispatch :: replies.drop 1 := by
    have := (take_append_drop 1 replies).symm
    rwa [hfirst] at this
  exact ((requests_at_most_once hrun).1 [] _ _ _ hsplit).1 (by simp) _ _ rfl

end Cellos.NetBroker
