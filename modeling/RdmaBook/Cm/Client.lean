import RdmaBook.Cm.Server

/-!
# cm_client

The client of the connection manager chapter, call by call. It has one identifier, on
which the events of the active side arrive one after the other: `on_addr_resolved` asks
for the route, `on_route_resolved` obtains what the connection needs and asks for the
connection, `on_established` exchanges the two messages and disconnects, and
`on_disconnected` releases what `on_route_resolved` has obtained. Every other event, and
every handler that fails, stops the loop; `main` then destroys the identifier and the
channel.
-/

namespace RdmaBook

/-! ### Objects and places -/

/-- What the client obtains and releases; `ConnObj.id` is the identifier of `main`. -/
inductive ClientObj
  | channel
  | conn (k : ConnObj)
  deriving DecidableEq, Repr

/-- What depends on what: the identifier on the channel, and what a connection has. -/
def ClientObj.Needs : ClientObj → ClientObj → Prop
  | .conn k, .conn k' => k.Needs k'
  | .conn k, .channel => k = .id
  | .channel, _ => False

/-- The objects `on_route_resolved` obtains. -/
def ClientObj.OfRoute : ClientObj → Prop
  | .channel => False
  | .conn k => k ≠ .id

/-- The calls of `on_route_resolved`, and its labels. -/
inductive RoutePc
  | calloc
  | allocPd
  | createCq
  | regRecvMr
  | regSendMr
  | createQp
  | postReceive
  | connect
  | errQp
  | errSendMr
  | errRecvMr
  | errCq
  | errPd
  | errFree
  deriving DecidableEq, Repr

/-- The calls of `on_established`. -/
inductive GreetPc
  | postSend
  /-- The busy wait the source takes for that of the send; it takes the first completion
  of the queue, whichever that is. -/
  | pollSend
  /-- The busy wait for the next completion. -/
  | pollRecv
  | disconnect
  deriving DecidableEq, Repr

/-- The calls of `on_disconnected`. -/
inductive ReleasePc
  | destroyQp
  | deregSend
  | deregRecv
  | destroyCq
  | deallocPd
  | freeCtx
  deriving DecidableEq, Repr

/-- The places of the client. -/
inductive ClientPc
  | createChannel
  | createId
  | resolveAddr
  /-- At the test of the event loop. -/
  | loop
  /-- In `on_addr_resolved`. -/
  | resolveRoute
  | route (p : RoutePc)
  | established (p : GreetPc)
  | disconnected (p : ReleasePc)
  | destroyId
  | destroyChannel
  /-- `main` has run its cleanup. -/
  | done
  /-- `main` has returned from its setup. -/
  | returned
  deriving DecidableEq, Repr

/-! ### State -/

/-- The client: its place, its flag `stop`, and, as a history, whether
`rdma_resolve_route` and `rdma_connect` have succeeded, the events it has fetched, and
what it has obtained and released. -/
structure CmClient where
  pc : ClientPc
  stop : Bool
  routeAsked : Bool
  connectAsked : Bool
  events : List CmEventType
  log : List (ResAct ClientObj)
  deriving DecidableEq

/-- What happens in a step. -/
inductive ClientLabel
  /-- The client moves on, or makes a call whose result it ignores. -/
  | cpu
  /-- A call whose result is checked returns, `true` for success. -/
  | call (ok : Bool)
  /-- `ibv_poll_cq` returns; the status is that of the completion. -/
  | poll (ret : PollRet) (status : WcStatus)
  /-- `rdma_get_cm_event` returns, with an event or a failure. -/
  | getEvent (ev : Option CmEventType)
  deriving DecidableEq, Repr

namespace CmClient

/-- Before the first call of `main`. -/
def start : CmClient := ⟨.createChannel, false, false, false, [], []⟩

/-- Obtain or release, and go on. -/
def act (s : CmClient) (a : ResAct ClientObj) (pc : ClientPc) : CmClient :=
  { s with log := s.log ++ [a], pc := pc }

/-- A handler returns to the loop; a result other than zero sets `stop`. -/
def ret (s : CmClient) (ok : Bool) : CmClient := { s with pc := .loop, stop := !ok }

/-! ### The handlers -/

/-- A call of `on_route_resolved` that obtains `k`: go on, or to a label. -/
def tryAcquire (s : CmClient) (k : ConnObj) (ok : Bool) (pc err : RoutePc) : CmClient :=
  if ok then s.act (.acquire (.conn k)) (.route pc) else { s with pc := .route err }

/-- One call of `on_route_resolved`. -/
def routeCall (s : CmClient) (ok : Bool) : RoutePc → Option CmClient
  | .calloc => some (if ok then s.act (.acquire (.conn .ctx)) (.route .allocPd) else s.ret false)
  | .allocPd => some (s.tryAcquire .pd ok .createCq .errFree)
  | .createCq => some (s.tryAcquire .cq ok .regRecvMr .errPd)
  | .regRecvMr => some (s.tryAcquire .recvMr ok .regSendMr .errCq)
  | .regSendMr => some (s.tryAcquire .sendMr ok .createQp .errRecvMr)
  | .createQp => some (s.tryAcquire .qp ok .postReceive .errSendMr)
  | .postReceive => some { s with pc := .route (if ok then .connect else .errQp) }
  | .connect =>
    some (if ok then { s.ret true with connectAsked := true } else { s with pc := .route .errQp })
  | _ => none

/-- One label of `on_route_resolved`; after the last, it returns -1. -/
def routeErr (s : CmClient) : RoutePc → Option CmClient
  | .errQp => some (s.act (.release (.conn .qp)) (.route .errSendMr))
  | .errSendMr => some (s.act (.release (.conn .sendMr)) (.route .errRecvMr))
  | .errRecvMr => some (s.act (.release (.conn .recvMr)) (.route .errCq))
  | .errCq => some (s.act (.release (.conn .cq)) (.route .errPd))
  | .errPd => some (s.act (.release (.conn .pd)) (.route .errFree))
  | .errFree => some ((s.act (.release (.conn .ctx)) .loop).ret false)
  | _ => none

/-- A call of `ibv_poll_cq` in `on_established`. -/
def establishedPoll (s : CmClient) (ret : PollRet) (status : WcStatus) : GreetPc → Option CmClient
  | .pollSend => match ret with
    | .empty => some s
    | .failed => some (s.ret false)
    | .one => some (if status = .success then { s with pc := .established .pollRecv }
        else s.ret false)
  | .pollRecv => match ret with
    | .empty => some s
    | .failed => some (s.ret false)
    | .one => some (if status = .success then { s with pc := .established .disconnect }
        else s.ret false)
  | _ => none

/-- One call of `on_disconnected`; `main` stops after it. -/
def disconnectedCall (s : CmClient) : ReleasePc → CmClient
  | .destroyQp => s.act (.release (.conn .qp)) (.disconnected .deregSend)
  | .deregSend => s.act (.release (.conn .sendMr)) (.disconnected .deregRecv)
  | .deregRecv => s.act (.release (.conn .recvMr)) (.disconnected .destroyCq)
  | .destroyCq => s.act (.release (.conn .cq)) (.disconnected .deallocPd)
  | .deallocPd => s.act (.release (.conn .pd)) (.disconnected .freeCtx)
  | .freeCtx => { s.act (.release (.conn .ctx)) .loop with stop := true }

/-! ### main -/

/-- **The events librdmacm can deliver** on the active side: ADDR_RESOLVED once,
ROUTE_RESOLVED once for a route that has been asked for, ESTABLISHED once and
DISCONNECTED for a connection that has been asked for; any other event at any point. -/
def CanDeliver (s : CmClient) : CmEventType → Prop
  | .addrResolved => .addrResolved ∉ s.events
  | .routeResolved => s.routeAsked = true ∧ .routeResolved ∉ s.events
  | .established => s.connectAsked = true ∧ .established ∉ s.events
  | .disconnected => s.connectAsked = true
  | _ => True

instance (s : CmClient) : DecidablePred s.CanDeliver := fun ev => by
  cases ev <;> unfold CanDeliver <;> infer_instance

/-- The `switch` of the event loop, for an event that has been copied and
acknowledged. -/
def dispatch (s : CmClient) (ev : CmEventType) : CmClient :=
  let s' := { s with events := s.events ++ [ev] }
  match ev with
  | .addrResolved => { s' with pc := .resolveRoute }
  | .routeResolved => { s' with pc := .route .calloc }
  | .established => { s' with pc := .established .postSend }
  | .disconnected => { s' with pc := .disconnected .destroyQp }
  -- the errors, REJECTED and everything unexpected
  | _ => { s' with stop := true }

/-- **A step of the client.** -/
def next (s : CmClient) (l : ClientLabel) : Option CmClient :=
  match s.pc, l with
  | .createChannel, .call ok =>
    some (if ok then s.act (.acquire .channel) .createId else { s with pc := .returned })
  | .createId, .call ok =>
    some (if ok then s.act (.acquire (.conn .id)) .resolveAddr else { s with pc := .returned })
  | .resolveAddr, .call ok => some { s with pc := if ok then .loop else .returned }
  | .loop, .cpu => if s.stop then some { s with pc := .destroyId } else none
  | .loop, .getEvent none => if s.stop then none else some { s with pc := .destroyId }
  | .loop, .getEvent (some ev) =>
    if s.stop = false ∧ s.CanDeliver ev then some (s.dispatch ev) else none
  | .resolveRoute, .call ok => some (if ok then { s.ret true with routeAsked := true }
      else s.ret false)
  | .route p, .call ok => s.routeCall ok p
  | .route p, .cpu => s.routeErr p
  | .established .postSend, .call ok =>
    some (if ok then { s with pc := .established .pollSend } else s.ret false)
  -- the result of `rdma_disconnect` is ignored
  | .established .disconnect, .cpu => some (s.ret true)
  | .established p, .poll ret status => s.establishedPoll ret status p
  | .disconnected p, .cpu => some (s.disconnectedCall p)
  | .destroyId, .cpu => some (s.act (.release (.conn .id)) .destroyChannel)
  | .destroyChannel, .cpu => some (s.act (.release .channel) .done)
  | _, _ => none

/-- **Where the client takes an event**, and what it does with it. -/
theorem next_getEvent_iff {s s' : CmClient} {ev : CmEventType} :
    s.next (.getEvent (some ev)) = some s' ↔
      s.pc = .loop ∧ s.stop = false ∧ s.CanDeliver ev ∧ s.dispatch ev = s' := by
  constructor
  · intro h
    unfold next at h
    split at h
    all_goals first | cases ‹ClientLabel.getEvent _ = _› | skip
    · split at h
      · rename_i hpc hcond
        exact ⟨hpc, hcond.1, hcond.2, Option.some.inj h⟩
      · cases h
    · cases h
  · rintro ⟨hpc, hstop, hdel, rfl⟩
    simp only [next, hpc]
    exact if_pos ⟨hstop, hdel⟩

end CmClient

/-- **The client of the connection manager chapter**, with any events and any results of
its calls. -/
def cmClientLts : Lts CmClient ClientLabel := Lts.ofFun (· = CmClient.start) CmClient.next

end RdmaBook
