import Cellos.CSpace.Authority

/-!
# Cellos.CSpace.Table

The kernel's table of published authorities, the two control entry points
(`dispatch_handle_control`, `dispatch_cspace_control`), and the table as a
transaction machine.

Every entry point holds the table lock from lookup to return, so one call is one
step of the machine.
-/

namespace Cellos.CSpace

open Lib

/-! ## control requests against one authority -/

/-- The expiry of a derived slot: with a parent expiry the request must name one
that is not later; without one it may name any or none. -/
def attenuateExpiry (requested parentExpiry : Option Nat) : Except ControlStatus (Option Nat) :=
  match requested with
  | some tick =>
    if parentExpiry.any (fun pe => pe < tick) then .error .denied else .ok (some tick)
  | none => if parentExpiry.isSome then .error .denied else .ok none

variable (auth : CellAuthority) (cellId generation : Nat)

/-- A close request, shared by both entry points. -/
def controlClose (ticket : Nat) : Option (ControlResultHeader × CellAuthority) :=
  match auth.closeTicket ticket with
  | none => none
  | some (.ok (), auth) => some (.new .success ticket 32 0, auth)
  | some (.error status, auth) => some (.new status ticket 32 0, auth)

/-- A revoke request, shared by both entry points. -/
def controlRevoke (ticket : Nat) : Option (ControlResultHeader × CellAuthority) :=
  match auth.revokeTicket ticket with
  | none => none
  | some (.ok queryTicket, auth) => some (.new .admissionCut queryTicket 32 0, auth)
  | some (.error status, auth) => some (.new status ticket 32 0, auth)

/-- A query request, shared by both entry points. -/
def controlQuery (ticket : Nat) : ControlResultHeader :=
  match auth.queryRevoke ticket with
  | .ok status => .new status ticket 32 0
  | .error status => .new status ticket 32 0

/-- The end of a derivation: allocate below `ticket` and report. -/
def controlAllocate (holder issuer : Principal) (kind : ResourceKind)
    (rights : BitVec 32) (expiry : Option Nat) (ticket : Nat) :
    ControlResultHeader × CellAuthority :=
  match auth.allocateSlot holder issuer kind rights expiry (some ticket) with
  | (.ok newTicket, auth) => (.new .success newTicket 32 1, auth)
  | (.error status, auth) => (.new status ticket 32 0, auth)

/-- The derive arm of `dispatch_handle_control`: the child has its parent's kind. -/
def handleDerive (req : HandleControlRequest) : ControlResultHeader × CellAuthority :=
  match auth.verifyTicket req.ticket with
  | .error status => (.new status req.ticket 32 0, auth)
  | .ok slot =>
    if slot.kind = .cSpaceAuthority ∧ req.rights &&& ~~~0x1FF#32 ≠ 0#32 then
      (.new .invalid req.ticket 32 0, auth)
    else if req.rights &&& ~~~slot.rights ≠ 0#32 then (.new .denied req.ticket 32 0, auth)
    else
      let requested := if req.expiryPresent = 1 then some req.expiryTick else none
      match attenuateExpiry requested slot.expiry with
      | .error status => (.new status req.ticket 32 0, auth)
      | .ok childExpiry =>
        controlAllocate auth (.cell req.destinationCell req.destinationGeneration)
          (.cell cellId generation) slot.kind req.rights childExpiry req.ticket

/-- The derive arm of `dispatch_cspace_control`: only CSpace authority may be
derived, a tick of 0 stands for no expiry, and the masks are not supported. -/
def cspaceDerive (req : CSpaceRequest) : ControlResultHeader × CellAuthority :=
  if req.mmioMask ≠ 0 ∨ req.blockRegionMask ≠ 0 then (.new .invalid req.parentTicket 32 0, auth)
  else match auth.verifyTicket req.parentTicket with
  | .error status => (.new status req.parentTicket 32 0, auth)
  | .ok slot =>
    if slot.kind ≠ .cSpaceAuthority then (.new .wrongType req.parentTicket 32 0, auth)
    else
      let requestedRights := req.classBits.setWidth 32
      if requestedRights &&& ~~~slot.rights ≠ 0#32 then
        (.new .denied req.parentTicket 32 0, auth)
      else
        let requested :=
          if 0 < req.absoluteExpiryTick then some req.absoluteExpiryTick else none
        match attenuateExpiry requested slot.expiry with
        | .error status => (.new status req.parentTicket 32 0, auth)
        | .ok childExpiry =>
          controlAllocate auth (.cell req.targetCell req.targetGeneration)
            (.cell cellId generation) .cSpaceAuthority requestedRights childExpiry
            req.parentTicket

/-- `dispatch_handle_control` on the caller's authority. -/
def dispatchHandleControl (req : HandleControlRequest) :
    Option (ControlResultHeader × CellAuthority) :=
  if auth.revoking ∧ req.action ≠ 0 ∧ req.action ≠ 3 then
    some (.new .admissionCut 0 32 0, auth)
  else match req.action with
  | 0 => controlClose auth req.ticket
  | 1 => some (handleDerive auth cellId generation req)
  | 2 => controlRevoke auth req.ticket
  | 3 => some (controlQuery auth req.ticket, auth)
  | _ => some (.new .invalid req.ticket 32 0, auth)

/-- `dispatch_cspace_control` on the caller's authority. -/
def dispatchCspaceControl (req : CSpaceRequest) : Option (ControlResultHeader × CellAuthority) :=
  if auth.revoking ∧ req.action ≠ 0 ∧ req.action ≠ 3 then
    some (.new .admissionCut 0 32 0, auth)
  else match req.action with
  | 0 => controlClose auth req.parentTicket
  | 1 => some (cspaceDerive auth cellId generation req)
  | 2 => controlRevoke auth req.parentTicket
  | 3 => some (controlQuery auth req.parentTicket, auth)
  | _ => some (.new .invalid req.parentTicket 32 0, auth)

/-! ## the table -/

/-- `(CellId, generation)`. -/
abbrev Key := Nat × Nat

/-- Published authorities, in key order. -/
structure AuthorityTable where
  rows : List (Key × CellAuthority)

namespace AuthorityTable

/-- The table at boot. -/
def empty : AuthorityTable := ⟨[]⟩

/-- The authority published under a key. -/
def get (t : AuthorityTable) (key : Key) : Option CellAuthority :=
  (t.rows.find? fun row => row.1 == key).map Prod.snd

/-- Write back the authority a `get_mut` borrowed. -/
def set (t : AuthorityTable) (key : Key) (auth : CellAuthority) : AuthorityTable :=
  ⟨t.rows.map fun row => if row.1 = key then (key, auth) else row⟩

/-- Insert a row before the first one with a greater key. -/
def insertRow (key : Key) (auth : CellAuthority) :
    List (Key × CellAuthority) → List (Key × CellAuthority)
  | [] => [(key, auth)]
  | row :: rows =>
    if key.1 < row.1.1 ∨ (key.1 = row.1.1 ∧ key.2 < row.1.2) then (key, auth) :: row :: rows
    else row :: insertRow key auth rows

/-- `AuthorityReservation::commit`: an already published key keeps its authority. -/
def commit (t : AuthorityTable) (key : Key) : AuthorityTable :=
  match t.get key with
  | some _ => t
  | none => ⟨insertRow key (CellAuthority.new key.1 key.2) t.rows⟩

end AuthorityTable

/-! ## the transaction machine -/

/-- One call into the capability space. -/
inductive Op where
  | publish (key : Key)
  | allocate (key : Key) (holder issuer : Principal) (kind : ResourceKind) (rights : BitVec 32)
      (expiry parentTicket : Option Nat)
  | close (key : Key) (ticket : Nat)
  | revoke (key : Key) (ticket : Nat)
  | retire (key : Key)
  | handleControl (key : Key) (buf : List UInt8)
  | cspaceControl (key : Key) (buf : List UInt8)

/-- The authority a call is made against. -/
def Op.key : Op → Key
  | .publish key => key
  | .allocate key _ _ _ _ _ _ => key
  | .close key _ => key
  | .revoke key _ => key
  | .retire key => key
  | .handleControl key _ => key
  | .cspaceControl key _ => key

/-- What a call returns. -/
inductive Response where
  | done
  | noAuthority
  | allocated (result : Except ControlStatus Nat)
  | closed (result : Except ControlStatus Unit)
  | revoked (result : Except ControlStatus Nat)
  | header (header : ControlResultHeader)
deriving DecidableEq

/-- One call against the authority of its key, which the caller has looked up.
The control requests arrive as bytes. -/
def Op.onAuthority (a : CellAuthority) : Op → Option (Response × CellAuthority)
  | .publish _ => some (.done, a)
  | .allocate _ holder issuer kind rights expiry parentTicket =>
    let (result, a') := a.allocateSlot holder issuer kind rights expiry parentTicket
    some (.allocated result, a')
  | .close _ ticket => (a.closeTicket ticket).map fun (result, a') => (.closed result, a')
  | .revoke _ ticket => (a.revokeTicket ticket).map fun (result, a') => (.revoked result, a')
  | .retire _ => some (.done, a.retire)
  | .handleControl key buf => match HandleControlRequest.decode buf with
    | .error status => some (.header (.new status 0 32 0), a)
    | .ok req => (dispatchHandleControl a key.1 key.2 req).map fun (h, a') => (.header h, a')
  | .cspaceControl key buf => match CSpaceRequest.decode buf with
    | .error status => some (.header (.new status 0 32 0), a)
    | .ok req => (dispatchCspaceControl a key.1 key.2 req).map fun (h, a') => (.header h, a')

/-- What a call against a key without an authority answers: a control request is refused, as
malformed or stale, the rest find nothing to do. -/
def Op.unpublished : Op → Response
  | .handleControl _ buf => match HandleControlRequest.decode buf with
    | .error status => .header (.new status 0 32 0)
    | .ok _ => .header (.new .stale 0 32 0)
  | .cspaceControl _ buf => match CSpaceRequest.decode buf with
    | .error status => .header (.new status 0 32 0)
    | .ok _ => .header (.new .stale 0 32 0)
  | _ => .noAuthority

/-- One transaction on the table. -/
def step (t : AuthorityTable) (op : Op) : Option (Response × AuthorityTable) :=
  match op with
  | .publish key => some (.done, t.commit key)
  | op => match t.get op.key with
    | none => some (op.unpublished, t)
    | some a => (op.onAuthority a).map fun (r, a') => (r, t.set op.key a')

end Cellos.CSpace
