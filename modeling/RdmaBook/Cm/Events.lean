import RdmaBook.Cm.Client
import RdmaBook.Cm.Server
import RdmaBook.Lib.EventLoop

/-!
# The events of cm_server and cm_client

Both programs take their events from the same loop: it copies the event, acknowledges
it, and calls the handler that belongs to its type with the identifier in the copy. In
`RdmaBook.CmServer.next` and `RdmaBook.CmClient.next` all of this is one step. Here it is
taken apart again, with what every call reads and with the calls of `rdma_destroy_id`.
No handler is given the event, so none can read it when it is gone, and the identifiers
are destroyed where no event is open (`RdmaBook.cm_events_kept`). Nothing is won or lost
by taking the loop apart (`RdmaBook.cmServerLts_reach_iff`,
`RdmaBook.cmClientLts_reach_iff`).
-/

namespace RdmaBook

open EventLoop

/-! ### What the calls read -/

/-- What a call of the two programs reads, beyond the variables of its function. -/
inductive CmMemory
  /-- The event `rdma_get_cm_event` has returned. -/
  | event
  /-- What `param.conn.private_data` of the event points to. -/
  | privateData
  /-- The `rdma_cm_id`, with its fields `verbs`, `qp` and `context`. -/
  | id
  /-- The `struct conn_context`, with its two buffers. -/
  | ctx
  deriving DecidableEq, Repr

/-- What is gone once the event is acknowledged. -/
def CmMemory.OfEvent : CmMemory → Bool
  | .event => true
  | .privateData => true
  | .id => false
  | .ctx => false

/-- What a call of `on_connect_request` or of its labels reads. -/
def ConnectPc.reads : ConnectPc → List CmMemory
  | .calloc => []
  | .allocPd => [.id]
  | .createCq => [.id]
  | .regRecvMr => [.ctx]
  | .regSendMr => [.ctx]
  | .createQp => [.id, .ctx]
  | .postReceive => [.id, .ctx]
  | .accept => [.id]
  | .errDestroyQp => [.id]
  | .errDeregSend => [.ctx]
  | .errDeregRecv => [.ctx]
  | .errDestroyCq => [.ctx]
  | .errDeallocPd => [.ctx]
  | .errFreeCtx => []

/-- What a call of the `on_established` of the server reads. -/
def EstablishedPc.reads : EstablishedPc → List CmMemory
  | .pollRecv => [.id, .ctx]
  | .postSend => [.id, .ctx]
  | .pollSend => [.ctx]

/-- What a call of the `on_disconnected` of the server reads. -/
def DisconnectPc.reads : DisconnectPc → List CmMemory
  | .destroyQp => [.id]
  | .deregSend => [.ctx]
  | .deregRecv => [.ctx]
  | .destroyCq => [.ctx]
  | .deallocPd => [.ctx]
  | .freeCtx => []
  | .destroyId => [.id]

/-- What a call of the server reads. -/
def CmServerPc.reads : CmServerPc → List CmMemory
  | .connect p _ => p.reads
  | .established p _ => p.reads
  | .disconnect p _ => p.reads
  | .bindAddr => [.id]
  | .listen => [.id]
  | .destroyListener => [.id]
  | _ => []

/-- What a call of `on_route_resolved` or of its labels reads. -/
def RoutePc.reads : RoutePc → List CmMemory
  | .calloc => []
  | .allocPd => [.id]
  | .createCq => [.id]
  | .regRecvMr => [.ctx]
  | .regSendMr => [.ctx]
  | .createQp => [.id, .ctx]
  | .postReceive => [.id, .ctx]
  | .connect => [.id]
  | .errQp => [.id]
  | .errSendMr => [.ctx]
  | .errRecvMr => [.ctx]
  | .errCq => [.ctx]
  | .errPd => [.ctx]
  | .errFree => []

/-- What a call of the `on_established` of the client reads. -/
def GreetPc.reads : GreetPc → List CmMemory
  | .postSend => [.id, .ctx]
  | .pollSend => [.ctx]
  | .pollRecv => [.ctx]
  | .disconnect => [.id, .ctx]

/-- What a call of the `on_disconnected` of the client reads. -/
def ReleasePc.reads : ReleasePc → List CmMemory
  | .destroyQp => [.id]
  | .deregSend => [.ctx]
  | .deregRecv => [.ctx]
  | .destroyCq => [.ctx]
  | .deallocPd => [.ctx]
  | .freeCtx => []

/-- What a call of the client reads. -/
def ClientPc.reads : ClientPc → List CmMemory
  | .route p => p.reads
  | .established p => p.reads
  | .disconnected p => p.reads
  | .resolveRoute => [.id]
  | .resolveAddr => [.id]
  | .destroyId => [.id]
  | _ => []

/-- **No call of the server reads an event.** -/
theorem CmServerPc.reads_event (pc : CmServerPc) : pc.reads.any CmMemory.OfEvent = false := by
  cases pc with
  | connect p c => cases p <;> rfl
  | established p c => cases p <;> rfl
  | disconnect p c => cases p <;> rfl
  | _ => rfl

/-- **No call of the client reads an event.** -/
theorem ClientPc.reads_event (pc : ClientPc) : pc.reads.any CmMemory.OfEvent = false := by
  cases pc with
  | route p => cases p <;> rfl
  | established p => cases p <;> rfl
  | disconnected p => cases p <;> rfl
  | _ => rfl

/-! ### The programs with their loops -/

/-- **The server with its event loop**; `accepts` says which events can come when. The
identifiers are destroyed at the end of `on_disconnected` and of `main`. -/
def cmServerLoop (accepts : CmServer → CmEvent → Bool) :
    Program CmServer CmLabel CmEvent CmObj where
  init := (· = CmServer.start)
  fetches s := s.pc = .loop && !s.stop
  accepts := accepts
  enter := CmServer.dispatch
  -- an event is taken by the loop, and by nothing else
  next s
    | .getEvent (some _) => none
    | l => s.next l
  touches s _ := s.pc.reads.any CmMemory.OfEvent
  destroys s _ := match s.pc with
    | .disconnect .destroyId c => some (.conn c .id)
    | .destroyListener => some .listener
    | _ => none

/-- **The client with its event loop**; `accepts` says which events can come when. The
identifier is destroyed at the end of `main`. -/
def cmClientLoop (accepts : CmClient → CmEventType → Bool) :
    Program CmClient ClientLabel CmEventType ClientObj where
  init := (· = CmClient.start)
  fetches s := s.pc = .loop && !s.stop
  accepts := accepts
  enter := CmClient.dispatch
  next s
    | .getEvent (some _) => none
    | l => s.next l
  touches s _ := s.pc.reads.any CmMemory.OfEvent
  destroys s _ := match s.pc with
    | .destroyId => some (.conn .id)
    | _ => none

/-- **Every event is acknowledged once, at the right time**, in both programs, whichever
events come and however the calls of the handlers end: before its handler and before the
next event; no handler reads what is gone then; and no identifier is destroyed while an
event is open. -/
theorem cm_events_kept :
    (∀ accepts st, (cmServerLoop accepts).lts.Reach Lts.any st → st.Kept (cmServerLoop accepts)) ∧
      ∀ accepts st, (cmClientLoop accepts).lts.Reach Lts.any st →
      st.Kept (cmClientLoop accepts) := by
  constructor
  · intro accepts st h
    exact kept_of_reach (fun s _ => CmServerPc.reads_event s.pc) h
  · intro accepts st h
    exact kept_of_reach (fun s _ => ClientPc.reads_event s.pc) h

/-- A client whose address does not resolve: its only event is copied, acknowledged and handled,
and its identifier is destroyed behind that. -/
theorem cm_events_kept_addrError :
    ∃ st, (cmClientLoop fun s ev => s.CanDeliver ev).lts.Reach Lts.any st ∧
      (st.inner.pc = .done ∧
        st.acts = [.get 0, .read 0, .ack 0, .handle 0, .destroy (.conn .id)]) ∧
      st.Kept (cmClientLoop fun s ev => s.CanDeliver ev) := by
  have hrun : (Lts.exec (cmClientLoop fun s ev => s.CanDeliver ev).step Lts.any
      ⟨CmClient.start, .idle, 0, []⟩
      [.inner (.call true), .inner (.call true), .inner (.call true), .get .addrError, .copy, .ack,
        .handle, .inner .cpu, .inner .cpu, .inner .cpu]).map (fun st => (st.inner.pc, st.acts)) =
      some (.done, [.get 0, .read 0, .ack 0, .handle 0, .destroy (.conn .id)]) := by
    decide +kernel
  obtain ⟨st, hexec, hview⟩ := Option.map_eq_some_iff.mp hrun
  have hreach : (cmClientLoop fun s ev => s.CanDeliver ev).lts.Reach Lts.any st :=
    ⟨⟨CmClient.start, .idle, 0, []⟩, ⟨rfl, rfl, rfl, rfl⟩, Lts.path_of_exec hexec⟩
  exact ⟨st, hreach, Prod.mk.inj hview, cm_events_kept.2 _ st hreach⟩

/-! ### The loop in one step -/

/-- The event a label delivers. -/
def CmLabel.event : CmLabel → Option CmEvent
  | .getEvent ev => ev
  | _ => none

/-- The event a label delivers. -/
def ClientLabel.event : ClientLabel → Option CmEventType
  | .getEvent ev => ev
  | _ => none

/-- **Taken apart or not, the server gets to the same states**, with the events librdmacm
can deliver. -/
theorem cmServerLts_reach_iff {s : CmServer} : cmServerLts.Reach Lts.any s ↔
    ∃ st, (cmServerLoop fun a ev => a.CanDeliver ev).lts.Reach Lts.any st ∧ st.inner = s := by
  refine reach_iff (P := cmServerLoop fun a ev => a.CanDeliver ev) CmLabel.event ?_
    (fun ev => ⟨.getEvent (some ev), rfl⟩) ?_
  · intro a l ev b hev
    obtain rfl : l = .getEvent (some ev) := by
      cases l with
      | getEvent o => exact congrArg CmLabel.getEvent hev
      | _ => cases hev
    rw [CmServer.next_getEvent_iff]
    simp [cmServerLoop, and_assoc]
  · intro a l
    cases l with
    | getEvent o => cases o <;> rfl
    | _ => rfl

/-- **Taken apart or not, the client gets to the same states**, with the events librdmacm
can deliver. -/
theorem cmClientLts_reach_iff {s : CmClient} : cmClientLts.Reach Lts.any s ↔
    ∃ st, (cmClientLoop fun a ev => a.CanDeliver ev).lts.Reach Lts.any st ∧ st.inner = s := by
  refine reach_iff (P := cmClientLoop fun a ev => a.CanDeliver ev) ClientLabel.event ?_
    (fun ev => ⟨.getEvent (some ev), rfl⟩) ?_
  · intro a l ev b hev
    obtain rfl : l = .getEvent (some ev) := by
      cases l with
      | getEvent o => exact congrArg ClientLabel.getEvent hev
      | _ => cases hev
    rw [CmClient.next_getEvent_iff]
    simp [cmClientLoop, and_assoc]
  · intro a l
    cases l with
    | getEvent o => cases o <;> rfl
    | _ => rfl

end RdmaBook
