import RdmaBook.Lib.Lts
import RdmaBook.Lib.Resources
import RdmaBook.Verbs.Basic

/-!
# cm_server

The server of the connection manager chapter, call by call: `main` with its setup,
its event loop and its cleanup, and the three handlers. `on_connect_request` obtains
seven things one after the other and has one label for each of them to release what
has been obtained when a later call fails; `on_disconnected` releases all of them and
the identifier; `main` releases the listener and the channel.

Connections are numbered in the order in which their CONNECT_REQUEST is fetched. The
number of a connection stands for its `rdma_cm_id`, and with it for the context the
handlers find in `id->context`.
-/

namespace RdmaBook

/-! ### Objects -/

/-- What belongs to a connection. -/
inductive ConnObj
  /-- The `rdma_cm_id` a CONNECT_REQUEST delivers. -/
  | id
  /-- The `struct conn_context`, with its two buffers. -/
  | ctx
  | pd
  | cq
  | recvMr
  | sendMr
  | qp
  deriving DecidableEq, Repr

/-- What the server obtains and releases. -/
inductive CmObj
  | channel
  | listener
  | conn (c : ℕ) (k : ConnObj)
  deriving DecidableEq, Repr

/-- **What depends on what** within a connection: the queue pair on its identifier, its
domain, its queue and the two regions its requests use; a region on its domain and
on the context its buffer is in. -/
def ConnObj.Needs : ConnObj → ConnObj → Prop
  | .qp, k => k = .id ∨ k = .pd ∨ k = .cq ∨ k = .recvMr ∨ k = .sendMr
  | .recvMr, k => k = .pd ∨ k = .ctx
  | .sendMr, k => k = .pd ∨ k = .ctx
  | _, _ => False

/-- What depends on what: every identifier on the channel. -/
def CmObj.Needs : CmObj → CmObj → Prop
  | .listener, o => o = .channel
  | .conn c k, .conn c' k' => c = c' ∧ k.Needs k'
  | .conn _ k, .channel => k = .id
  | _, _ => False

/-! ### Places -/

/-- The calls of `on_connect_request`, and its labels. -/
inductive ConnectPc
  | calloc
  | allocPd
  | createCq
  | regRecvMr
  | regSendMr
  | createQp
  | postReceive
  | accept
  | errDestroyQp
  | errDeregSend
  | errDeregRecv
  | errDestroyCq
  | errDeallocPd
  | errFreeCtx
  deriving DecidableEq, Repr

/-- The calls of `on_established`. -/
inductive EstablishedPc
  /-- The busy wait for the message of the client. -/
  | pollRecv
  | postSend
  /-- The busy wait for the completion of the reply. -/
  | pollSend
  deriving DecidableEq, Repr

/-- The calls of `on_disconnected`. -/
inductive DisconnectPc
  | destroyQp
  | deregSend
  | deregRecv
  | destroyCq
  | deallocPd
  | freeCtx
  | destroyId
  deriving DecidableEq, Repr

/-- The places of the server. -/
inductive CmServerPc
  | createChannel
  | createId
  | bindAddr
  | listen
  /-- At the test of the event loop. -/
  | loop
  | connect (p : ConnectPc) (c : ℕ)
  | established (p : EstablishedPc) (c : ℕ)
  | disconnect (p : DisconnectPc) (c : ℕ)
  | destroyListener
  | destroyChannel
  /-- `main` has run its cleanup. -/
  | done
  /-- `main` has returned from its setup. -/
  | returned
  deriving DecidableEq, Repr

/-! ### State -/

/-- The identifier of an event. -/
inductive CmId
  | listener
  | conn (c : ℕ)
  deriving DecidableEq, Repr

/-- `struct rdma_cm_event`, as far as the server looks at it. -/
structure CmEvent where
  type : CmEventType
  id : CmId
  deriving DecidableEq, Repr

/-- The server: its place, its flag `stop`, the number of connections requested so far,
and, as a history, the events it has fetched and what it has obtained and released. -/
structure CmServer where
  pc : CmServerPc
  stop : Bool
  conns : ℕ
  events : List CmEvent
  log : List (ResAct CmObj)
  deriving DecidableEq

/-- What happens in a step. -/
inductive CmLabel
  /-- The server moves on, or releases something. -/
  | cpu
  /-- A call whose result is checked returns, `true` for success. -/
  | call (ok : Bool)
  /-- `ibv_poll_cq` returns; the status is that of the completion. -/
  | poll (ret : PollRet) (status : WcStatus)
  /-- `rdma_get_cm_event` returns, with an event or a failure. -/
  | getEvent (ev : Option CmEvent)
  deriving DecidableEq, Repr

namespace CmServer

/-- Before the first call of `main`. -/
def start : CmServer := ⟨.createChannel, false, 0, [], []⟩

/-- Obtain or release, and go on. -/
def act (s : CmServer) (a : ResAct CmObj) (pc : CmServerPc) : CmServer :=
  { s with log := s.log ++ [a], pc := pc }

/-- A handler returns to the loop; a result other than zero sets `stop`. -/
def ret (s : CmServer) (ok : Bool) : CmServer := { s with pc := .loop, stop := !ok }

/-! ### The handlers -/

/-- A call of `on_connect_request` that obtains `k`: go on, or to a label. -/
def tryAcquire (s : CmServer) (c : ℕ) (k : ConnObj) (ok : Bool) (pc err : ConnectPc) : CmServer :=
  if ok then s.act (.acquire (.conn c k)) (.connect pc c) else { s with pc := .connect err c }

/-- One call of `on_connect_request` for the connection `c`. -/
def connectCall (s : CmServer) (c : ℕ) (ok : Bool) : ConnectPc → Option CmServer
  -- nothing has been obtained that a label would release
  | .calloc => some (if ok then s.act (.acquire (.conn c .ctx)) (.connect .allocPd c)
      else s.ret false)
  | .allocPd => some (s.tryAcquire c .pd ok .createCq .errFreeCtx)
  | .createCq => some (s.tryAcquire c .cq ok .regRecvMr .errDeallocPd)
  | .regRecvMr => some (s.tryAcquire c .recvMr ok .regSendMr .errDestroyCq)
  | .regSendMr => some (s.tryAcquire c .sendMr ok .createQp .errDeregRecv)
  | .createQp => some (s.tryAcquire c .qp ok .postReceive .errDeregSend)
  | .postReceive => some { s with pc := .connect (if ok then .accept else .errDestroyQp) c }
  -- a failed `rdma_accept` is handled like a failed post
  | .accept => some (if ok then s.ret true else { s with pc := .connect .errDestroyQp c })
  | _ => none

/-- One label of `on_connect_request` for the connection `c`; after the last, it
returns -1. -/
def connectErr (s : CmServer) (c : ℕ) : ConnectPc → Option CmServer
  | .errDestroyQp => some (s.act (.release (.conn c .qp)) (.connect .errDeregSend c))
  | .errDeregSend => some (s.act (.release (.conn c .sendMr)) (.connect .errDeregRecv c))
  | .errDeregRecv => some (s.act (.release (.conn c .recvMr)) (.connect .errDestroyCq c))
  | .errDestroyCq => some (s.act (.release (.conn c .cq)) (.connect .errDeallocPd c))
  | .errDeallocPd => some (s.act (.release (.conn c .pd)) (.connect .errFreeCtx c))
  | .errFreeCtx => some ((s.act (.release (.conn c .ctx)) .loop).ret false)
  | _ => none

/-- A call of `ibv_poll_cq` in `on_established`. -/
def establishedPoll (s : CmServer) (c : ℕ) (ret : PollRet) (status : WcStatus) :
    EstablishedPc → Option CmServer
  | .pollRecv => match ret with
    | .empty => some s
    | .failed => some (s.ret false)
    | .one => some (if status = .success then { s with pc := .established .postSend c }
        else s.ret false)
  | .pollSend => match ret with
    | .empty => some s
    | .failed => some (s.ret false)
    | .one => some (s.ret (status = .success))
  | .postSend => none

/-- One call of `on_disconnected` for the connection `c`; `main` stops after it. -/
def disconnectCall (s : CmServer) (c : ℕ) : DisconnectPc → CmServer
  | .destroyQp => s.act (.release (.conn c .qp)) (.disconnect .deregSend c)
  | .deregSend => s.act (.release (.conn c .sendMr)) (.disconnect .deregRecv c)
  | .deregRecv => s.act (.release (.conn c .recvMr)) (.disconnect .destroyCq c)
  | .destroyCq => s.act (.release (.conn c .cq)) (.disconnect .deallocPd c)
  | .deallocPd => s.act (.release (.conn c .pd)) (.disconnect .freeCtx c)
  | .freeCtx => s.act (.release (.conn c .ctx)) (.disconnect .destroyId c)
  | .destroyId => { s.act (.release (.conn c .id)) .loop with stop := true }

/-! ### main -/

/-- **The events librdmacm can deliver**: a request of a new connection; for a
connection that has been requested, ESTABLISHED once, DISCONNECTED, or any other
event; for the listener, any other event. -/
def CanDeliver (s : CmServer) (ev : CmEvent) : Prop :=
  match ev.type, ev.id with
  | .connectRequest, .conn c => c = s.conns
  | .connectRequest, .listener => False
  | .established, .conn c => c < s.conns ∧ ev ∉ s.events
  | .established, .listener => False
  | .disconnected, .conn c => c < s.conns
  | .disconnected, .listener => False
  | _, .conn c => c < s.conns
  | _, .listener => True

instance (s : CmServer) : DecidablePred s.CanDeliver := fun ev => by
  unfold CanDeliver
  split <;> infer_instance

/-- The `switch` of the event loop, for an event that has been copied and
acknowledged. -/
def dispatch (s : CmServer) (ev : CmEvent) : CmServer :=
  let s' := { s with events := s.events ++ [ev] }
  match ev.type, ev.id with
  | .connectRequest, .conn c =>
    { s'.act (.acquire (.conn c .id)) (.connect .calloc c) with conns := s.conns + 1 }
  | .established, .conn c => { s' with pc := .established .pollRecv c }
  | .disconnected, .conn c => { s' with pc := .disconnect .destroyQp c }
  -- "Unexpected event"
  | _, _ => { s' with stop := true }

/-- **A step of the server.** -/
def next (s : CmServer) (l : CmLabel) : Option CmServer :=
  match s.pc, l with
  | .createChannel, .call ok =>
    some (if ok then s.act (.acquire .channel) .createId else { s with pc := .returned })
  | .createId, .call ok =>
    some (if ok then s.act (.acquire .listener) .bindAddr else { s with pc := .returned })
  | .bindAddr, .call ok => some { s with pc := if ok then .listen else .returned }
  | .listen, .call ok => some { s with pc := if ok then .loop else .returned }
  | .loop, .cpu => if s.stop then some { s with pc := .destroyListener } else none
  -- `rdma_get_cm_event` has failed: the loop ends
  | .loop, .getEvent none => if s.stop then none else some { s with pc := .destroyListener }
  | .loop, .getEvent (some ev) =>
    if s.stop = false ∧ s.CanDeliver ev then some (s.dispatch ev) else none
  | .connect p c, .call ok => s.connectCall c ok p
  | .connect p c, .cpu => s.connectErr c p
  | .established .postSend c, .call ok =>
    some (if ok then { s with pc := .established .pollSend c } else s.ret false)
  | .established p c, .poll ret status => s.establishedPoll c ret status p
  | .disconnect p c, .cpu => some (s.disconnectCall c p)
  | .destroyListener, .cpu => some (s.act (.release .listener) .destroyChannel)
  | .destroyChannel, .cpu => some (s.act (.release .channel) .done)
  | _, _ => none

/-- **Where the server takes an event**, and what it does with it. -/
theorem next_getEvent_iff {s s' : CmServer} {ev : CmEvent} :
    s.next (.getEvent (some ev)) = some s' ↔
      s.pc = .loop ∧ s.stop = false ∧ s.CanDeliver ev ∧ s.dispatch ev = s' := by
  constructor
  · intro h
    unfold next at h
    split at h
    all_goals first | cases ‹CmLabel.getEvent _ = _› | skip
    · split at h
      · rename_i hpc hcond
        exact ⟨hpc, hcond.1, hcond.2, Option.some.inj h⟩
      · cases h
    · cases h
  · rintro ⟨hpc, hstop, hdel, rfl⟩
    simp only [next, hpc]
    exact if_pos ⟨hstop, hdel⟩

end CmServer

/-- **The server of the connection manager chapter**, with any events and any results of
its calls. -/
def cmServerLts : Lts CmServer CmLabel := Lts.ofFun (· = CmServer.start) CmServer.next

end RdmaBook
