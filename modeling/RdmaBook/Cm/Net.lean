import RdmaBook.Cm.Client
import RdmaBook.Lib.CString
import RdmaBook.Verbs.Message

/-!
# cm_server with its clients

The server and any number of clients, with the connections between them: the two
programs of `RdmaBook.CmServer` and `RdmaBook.CmClient`, and what their calls of
libibverbs do. Each side of a connection has one queue pair with one completion queue
for its sends and its receives, and the two buffers of its `struct conn_context`.

Clients are numbered, and so are the connections at the server; a CONNECT_REQUEST is
that of some client whose `rdma_connect` has succeeded. A connection is established at
either side only when the server has accepted it. A queue pair that has been destroyed
takes part in nothing more; here it may go on, which only adds runs.
-/

namespace RdmaBook

open CString

/-! ### A connection -/

/-- The buffers of a `struct conn_context`. -/
inductive CmBuf
  | recvBuf
  | sendBuf
  deriving DecidableEq, Repr

/-- `BUFFER_SIZE`. -/
def bufferSize : ℕ := 1024

/-- The text of the client. -/
def greeting : List UInt8 := ascii "Hello from RDMA_CM client!"

/-- The text of the server, by `wc.byte_len`. -/
def replyText (byteLen : ℕ) : List UInt8 :=
  ascii "Hello from server! Your message was " ++ decimal 0 byteLen ++ ascii " bytes."

/-- **The connection of a client**: its two ends, whether the server has accepted it,
`wc.byte_len` in the `on_established` of the server, and, as a history, the messages each
side has posted, as they were in its buffer. -/
structure CmConn where
  msg : MsgConn CmBuf
  accepted : Bool
  byteLen : ℕ
  said : Side → List (List UInt8)

/-- What a program does with a connection. -/
inductive CmAct
  /-- `post_receive` succeeds. -/
  | receive
  /-- `rdma_connect` succeeds. -/
  | connect
  /-- `rdma_accept` succeeds. -/
  | accept
  /-- ESTABLISHED is fetched. -/
  | established
  /-- `snprintf` into `send_buf`, and the `post_send` behind it. -/
  | send (ok : Bool)
  /-- `ibv_poll_cq` takes a completion. -/
  | poll (status : WcStatus)
  deriving DecidableEq, Repr

namespace CmConn

/-- Before anything has been posted; `calloc` clears the buffers. -/
def start : CmConn where
  msg := MsgConn.start fun _ _ => List.replicate bufferSize 0
  accepted := false
  byteLen := 0
  said := fun _ => []

/-- `post_receive`. -/
def postReceive (k : CmConn) (s : Side) : CmConn :=
  { k with msg := k.msg.set s ((k.msg.ends s).postRecv ⟨0, .recvBuf, bufferSize⟩) }

/-- The text a side is about to send. -/
def text (k : CmConn) : Side → List UInt8
  | .client => greeting
  | .server => replyText k.byteLen

/-- The end of a side with its text in `send_buf`. -/
def filled (k : CmConn) (s : Side) : MsgEnd CmBuf :=
  let e := k.msg.ends s
  e.store .sendBuf (snprintf (e.mem .sendBuf) bufferSize (k.text s))

/-- `post_send` of `strlen(ctx->send_buf) + 1` bytes. -/
def postSend (k : CmConn) (s : Side) (ok : Bool) : CmConn :=
  let e := k.filled s
  let len := strlen (e.mem .sendBuf) 0 + 1
  if ok then
    { k with
      msg := k.msg.set s (e.postSend ⟨⟨1, .sendBuf, len⟩, .send⟩)
      said := Function.update k.said s (k.said s ++ [Stream.window (e.mem .sendBuf) 0 len]) }
  else { k with msg := k.msg.set s e }

/-- The oldest completion of the queue is taken, whichever it is; the server looks at
its length. -/
def poll (k : CmConn) (s : Side) (status : WcStatus) : Option CmConn :=
  match (k.msg.ends s).cq with
  | [] => none
  | wc :: rest =>
    if wc.status = status then
      some { k with
        msg := k.msg.set s { k.msg.ends s with cq := rest }
        byteLen := match s with
          | .client => k.byteLen
          | .server => wc.byteLen }
    else none

/-- **What an action of one side does to the connection.** -/
def act (k : CmConn) (s : Side) : CmAct → Option CmConn
  | .receive => some (k.postReceive s)
  | .connect => some k
  | .accept => some { k with accepted := true }
  | .established => if k.accepted then some k else none
  | .send ok => some (k.postSend s ok)
  | .poll status => k.poll s status

end CmConn

/-! ### The programs -/

/-- What a step of the server does with a connection. -/
def CmServer.io (s : CmServer) (l : CmLabel) : Option (ℕ × CmAct) :=
  match s.pc, l with
  | .connect .postReceive c, .call true => some (c, .receive)
  | .connect .accept c, .call true => some (c, .accept)
  | .loop, .getEvent (some ⟨.established, .conn c⟩) => some (c, .established)
  | .established .pollRecv c, .poll .one status => some (c, .poll status)
  | .established .postSend c, .call ok => some (c, .send ok)
  | .established .pollSend c, .poll .one status => some (c, .poll status)
  | _, _ => none

/-- What a step of a client does with its connection. -/
def CmClient.io (s : CmClient) (l : ClientLabel) : Option CmAct :=
  match s.pc, l with
  | .route .postReceive, .call true => some .receive
  | .route .connect, .call true => some .connect
  | .loop, .getEvent (some .established) => some .established
  | .established .postSend, .call ok => some (.send ok)
  | .established .pollSend, .poll .one status => some (.poll status)
  | .established .pollRecv, .poll .one status => some (.poll status)
  | _, _ => none

/-- A CONNECT_REQUEST is fetched. -/
def CmLabel.IsRequest : CmLabel → Prop
  | .getEvent (some ev) => ev.type = .connectRequest
  | _ => False

instance : DecidablePred CmLabel.IsRequest
  | .getEvent (some ev) => inferInstanceAs (Decidable (ev.type = .connectRequest))
  | .getEvent none => inferInstanceAs (Decidable False)
  | .cpu => inferInstanceAs (Decidable False)
  | .call _ => inferInstanceAs (Decidable False)
  | .poll _ _ => inferInstanceAs (Decidable False)

/-! ### The system -/

/-- The server, the clients, the clients whose requests the server has fetched, in the
order of the connections, and the connection of each client. -/
structure CmNet where
  server : CmServer
  clients : ℕ → CmClient
  peers : List ℕ
  conns : ℕ → CmConn

/-- What happens in a step. -/
inductive CmNetLabel
  /-- A step of the server, other than that it fetches a CONNECT_REQUEST. -/
  | server (l : CmLabel)
  /-- The server fetches the CONNECT_REQUEST of a client. -/
  | request (i : ℕ)
  | client (i : ℕ) (l : ClientLabel)
  /-- The device of one side of the connection of a client. -/
  | device (i : ℕ) (s : Side) (ev : MsgEvent)
  deriving DecidableEq, Repr

namespace CmNet

/-- Nobody has done anything. -/
def start : CmNet := ⟨CmServer.start, fun _ => CmClient.start, [], fun _ => CmConn.start⟩

/-- The connection of a client replaced. -/
def setConn (st : CmNet) (i : ℕ) (k : CmConn) : CmNet :=
  { st with conns := Function.update st.conns i k }

/-- An action of one side of the connection of a client. -/
def act (st : CmNet) (i : ℕ) (s : Side) (a : CmAct) : Option CmNet :=
  ((st.conns i).act s a).map (st.setConn i)

/-- **A step of the system.** -/
def next (st : CmNet) : CmNetLabel → Option CmNet
  | .server l =>
    if l.IsRequest then none
    else (st.server.next l).bind fun s' =>
      let st' := { st with server := s' }
      match st.server.io l with
      | none => some st'
      | some (c, a) => (st.peers[c]?).bind fun i => st'.act i .server a
  | .request i =>
    if (st.clients i).connectAsked = true ∧ i ∉ st.peers then
      (st.server.next (.getEvent (some ⟨.connectRequest, .conn st.server.conns⟩))).map fun s' =>
        { st with server := s', peers := st.peers ++ [i] }
    else none
  | .client i l =>
    ((st.clients i).next l).bind fun c' =>
      let st' := { st with clients := Function.update st.clients i c' }
      match (st.clients i).io l with
      | none => some st'
      | some a => st'.act i .client a
  | .device i s ev =>
    ((st.conns i).msg.next s ev).map fun msg => st.setConn i { st.conns i with msg := msg }

end CmNet

/-- **The server of the connection manager chapter with its clients.** -/
def cmNetLts : Lts CmNet CmNetLabel := Lts.ofFun (· = CmNet.start) CmNet.next

/-! ### Runs in which nothing fails -/

/-- No call and no completion fails in the step of the server. -/
def CmLabel.Ok : CmLabel → Prop
  | .call ok => ok = true
  | .poll ret status => ret ≠ .failed ∧ status = .success
  | .getEvent ev => ev.isSome = true
  | .cpu => True

instance : DecidablePred CmLabel.Ok
  | .call ok => inferInstanceAs (Decidable (ok = true))
  | .poll ret status => inferInstanceAs (Decidable (ret ≠ .failed ∧ status = .success))
  | .getEvent ev => inferInstanceAs (Decidable (ev.isSome = true))
  | .cpu => inferInstanceAs (Decidable True)

/-- No call and no completion fails in the step of the client. -/
def ClientLabel.Ok : ClientLabel → Prop
  | .call ok => ok = true
  | .poll ret status => ret ≠ .failed ∧ status = .success
  | .getEvent ev => ev.isSome = true
  | .cpu => True

instance : DecidablePred ClientLabel.Ok
  | .call ok => inferInstanceAs (Decidable (ok = true))
  | .poll ret status => inferInstanceAs (Decidable (ret ≠ .failed ∧ status = .success))
  | .getEvent ev => inferInstanceAs (Decidable (ev.isSome = true))
  | .cpu => inferInstanceAs (Decidable True)

/-- **No call and no completion fails in the step.** -/
def CmNetNoFailure (_ : CmNet) : CmNetLabel → Prop
  | .server l => l.Ok
  | .request _ => True
  | .client _ l => l.Ok
  | .device _ _ ev => ev.Ok

instance (st : CmNet) : DecidablePred (CmNetNoFailure st)
  | .server l => inferInstanceAs (Decidable l.Ok)
  | .request _ => inferInstanceAs (Decidable True)
  | .client _ l => inferInstanceAs (Decidable l.Ok)
  | .device _ _ ev => inferInstanceAs (Decidable ev.Ok)

end RdmaBook
