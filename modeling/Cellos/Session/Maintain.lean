import Cellos.Session.Cancel

/-!
# Cellos.Session.Maintain

The garbage collection of session records (`maintenance`, `drain_dead`,
`remove_operation`, `reclaim` in `task/cell_session.rs`).

A maintenance pass aborts expired and orphaned preparations, cancels the children of
receipts whose issuer was replaced, closes the bootstraps of dead controllers and
replaced issuers, and drains the records of dead owners.  The number of aborts and of
drain probes of one pass is bounded; a cursor lets the next pass go on where this one
stopped.
-/

namespace Cellos.Session

open Lib

/-- The state codes above 2: nothing will happen to the child any more. -/
def PreparedState.finished : PreparedState → Bool
  | .terminal => true
  | .aborted => true
  | .expired => true
  | _ => false

/-- The state codes up to 2: the bootstrap still stands. -/
def BootstrapState.standing : BootstrapState → Bool
  | .reserved => true
  | .bound => true
  | .active => true
  | _ => false

/-- The record a retained request names, its first reference. -/
def Outcome.named (o : Outcome) : Option Ref := (readRef o.request headerLen).toOption

namespace World

/-! ## removing an operation -/

variable (w : World) (operation : Ref) (env : Env)

/-- `remove_operation`: the operation, its holder records, its child records and every
request ledger scoped to it. -/
def removeOperation (r : Ref) : World :=
  { w with
    operations := w.operations.filter fun o => o.reference ≠ r
    endpoints := w.endpoints.filter fun e => e.operation ≠ r
    ledgers := w.ledgers.filter fun l => l.operation ≠ r
    prepared := w.prepared.filter fun p => p.operation ≠ r }

/-- `retained_terminal`: a finished child record that no receipt names. -/
def retainedTerminal (p : Prepared) : Bool :=
  p.state.finished && !w.receipts.any fun rr => rr.prepared = p.reference

/-- `drained`: nothing depends on the operation. -/
def drained (r : Ref) : Bool := !(w.operations.any fun o => o.parent = r)
    && !(w.prepared.any fun p => p.operation = r ∧ w.retainedTerminal p = false)
    && !(w.receipts.any fun rr => rr.operation = r)
    && !(w.bootstraps.any fun b => b.operation = r ∧ b.state.standing)
    && !(w.endpoints.any fun e => e.operation = r ∧ e.held)

/-! ## a maintenance pass -/

/-- Abort a preparation that expired or whose preparer is dead, while the budget lasts. -/
def expirePrepared (s : Nat × World) (r : Ref) : Nat × World :=
  match s.2.prepared.find? fun p => p.reference = r with
  | none => s
  | some p =>
    if s.1 ≠ 0 ∧ p.state = .staged ∧ (p.deadline ≤ env.now ∨ s.2.ownerLive p.preparer = false) then
      (s.1 - 1, s.2.abort env r (p.deadline ≤ env.now))
    else s

variable (input vfs : Option Binding)

/-- The provider of a receipt's service. -/
def currentIssuer (rr : Receipt) : Option Binding :=
  if receiptService rr.kind = serviceInput then input else vfs

/-- A pending or committed receipt whose issuer is no longer the provider: abort its
staged child, cancel the operation of its live one. -/
def expireReceipt (s : Nat × World) (r : Ref) : Nat × World :=
  match s.2.receipts.find? fun rr => rr.reference = r with
  | none => s
  | some rr =>
    if (rr.state = .prepared ∨ rr.state = .committed) ∧
        currentIssuer input vfs rr ≠ some rr.issuer then
      match s.2.prepared.find? fun p => p.reference = rr.prepared with
      | none => s
      | some p =>
        if p.state = .staged ∧ s.1 ≠ 0 then (s.1 - 1, s.2.abort env p.reference false)
        else if p.state = .live then (s.1, s.2.cancel env rr.operation 4)
        else s
    else s

/-- Close a bootstrap that lost its issuer or controller, or that was never activated
in time. -/
def expireBootstrap (input : Option Binding) (w : World) (r : Ref) : World :=
  match w.bootstraps.find? fun b => b.reference = r with
  | none => w
  | some b =>
    if b.state.standing = false then w
    else if input ≠ some b.issuer ∨ w.ownerLive b.controller = false then
      w.closeBootstrap env r .closed
    else if b.state ≠ .active ∧ b.deadline ≤ env.now then w.closeBootstrap env r .expired
    else w

/-- Receipts of a replaced issuer go once their child is finished. -/
def retainReceipts (w : World) : World :=
  { w with receipts := w.receipts.filter fun rr =>
      currentIssuer input vfs rr = some rr.issuer ∨
        (w.prepared.find? fun p => p.reference = rr.prepared).any fun p =>
          p.state.finished = false }

/-- The first loop of `drain_dead`: finished children of dead preparers, from the cursor. -/
def drainPrepared : Nat → Nat → Nat → World → World
  | 0, _, i, w => { w with drainPreparedCursor := i }
  | visits + 1, budget, i, w =>
    if budget = 0 then { w with drainPreparedCursor := i }
    else
      let i := if w.prepared.length ≤ i then 0 else i
      match w.prepared[i]? with
      | none => { w with drainPreparedCursor := i }
      | some p =>
        if p.state.finished ∧ w.ownerLive p.preparer = false then
          if w.receipts.any fun rr => rr.prepared = p.reference then
            drainPrepared visits (budget - 1) (i + 1) w
          else
            drainPrepared visits (budget - 1) i { w with prepared := w.prepared.eraseIdx i }
        else drainPrepared visits budget (i + 1) w

/-- A closed bootstrap goes when its controller is dead or its issuer was replaced. -/
def retainBootstraps (input : Option Binding) (w : World) : World :=
  { w with bootstraps := w.bootstraps.filter fun b =>
      b.state.standing ∨ (w.ownerLive b.controller ∧ input = some b.issuer) }

/-- The second loop of `drain_dead`: drained operations of dead owners. -/
def drainOperations : Nat → Nat → Nat → Nat → World → World
  | 0, _, _, last, w => { w with drainOperationCursor := last }
  | visits + 1, budget, i, last, w =>
    if budget = 0 then { w with drainOperationCursor := last }
    else
      let i := if w.operations.length ≤ i then 0 else i
      match w.operations[i]? with
      | none => { w with drainOperationCursor := last }
      | some o =>
        if w.ownerLive o.owner then drainOperations visits budget (i + 1) o.reference.id w
        else if w.drained o.reference then
          drainOperations visits (budget - 1) i o.reference.id (w.removeOperation o.reference)
        else drainOperations visits (budget - 1) (i + 1) o.reference.id w

/-- `ABORT_BUDGET`. -/
def abortBudget : Nat := 8
/-- `DRAIN_BUDGET`. -/
def drainBudget : Nat := 4

/-- `drain_dead`. -/
def drainDead (input : Option Binding) (w : World) : World :=
  let w := drainPrepared w.prepared.length drainBudget w.drainPreparedCursor w
  let w := w.retainBootstraps input
  let start := (w.operations.takeWhile fun o => o.reference.id ≤ w.drainOperationCursor).length
  drainOperations w.operations.length drainBudget start w.drainOperationCursor w

/-- `maintenance`. -/
def maintenance (w : World) : World :=
  let s := (w.prepared.map (·.reference)).foldl (expirePrepared env) (abortBudget, w)
  let input := (s.2.binding serviceInput).toOption
  let vfs := (s.2.binding serviceVfs).toOption
  let w := ((s.2.receipts.map (·.reference)).foldl (expireReceipt env input vfs) s).2
  let w := (w.bootstraps.map (·.reference)).foldl (expireBootstrap env input) w
  (w.retainReceipts input vfs).drainDead input

/-! ## reclaim -/

/-- A retained outcome of the operation names the record. -/
def pinned (operation r : Ref) : Bool :=
  w.ledgers.any fun l => l.operation = operation ∧ l.outcomes.any fun o => o.named = some r

/-- A receipt `reclaim` keeps. -/
def keepsReceipt (rr : Receipt) : Bool := rr.operation ≠ operation ∨ rr.materialized = false
    ∨ (rr.state = .committed ∧ rr.restored = false ∧ rr.kind = 1)
    ∨ (w.prepared.any fun p => p.reference = rr.prepared ∧ p.state.finished = false)
    ∨ w.pinned operation rr.reference

/-- A child record `reclaim` keeps: a terminal one stays readable by its preparer. -/
def keepsPrepared (p : Prepared) : Bool := p.operation ≠ operation ∨ p.state.finished = false
    ∨ (w.receipts.any fun rr => rr.prepared = p.reference)
    ∨ w.pinned operation p.reference ∨ p.state = .terminal

/-- A holder record `reclaim` keeps. -/
def keepsEndpoint (e : Endpoint) : Bool :=
  e.operation ≠ operation ∨ e.held ∨ w.pinned operation e.reference

/-- A bootstrap `reclaim` keeps. -/
def keepsBootstrap (b : Bootstrap) : Bool :=
  b.operation ≠ operation ∨ b.state.standing ∨ w.pinned operation b.reference

/-- `reclaim`: release the finished records of an operation that nothing refers to. -/
def reclaim : World :=
  let w := { w with receipts := w.receipts.filter (w.keepsReceipt operation) }
  let w := { w with prepared := w.prepared.filter (w.keepsPrepared operation) }
  let w := { w with endpoints := w.endpoints.filter (w.keepsEndpoint operation) }
  { w with bootstraps := w.bootstraps.filter (w.keepsBootstrap operation) }

end World

end Cellos.Session
