import RdmaBook.Lib.CString
import RdmaBook.Lib.Lts
import RdmaBook.Verbs.Basic

/-!
# ud_send

The datagram example, from the synchronization over TCP on: the two queue pairs are
ready and each side knows the other's. The receiver posts its buffers, and then, for
each message, polls a completion, prints the string in the buffer the completion names
and posts the buffer again. The sender formats one string after the other in one
buffer, posts it and waits for its completion, which says that the datagram has left
and nothing about the receiver.

The device puts a route header of forty bytes in front of every datagram it receives. A
datagram that finds no posted buffer is dropped, and nobody is told. The fabric may
deliver any datagram that has been sent, any number of times and in any order; what a
run asks of it is a condition on the steps.
-/

namespace RdmaBook

open CString Stream

/-! ### Data -/

/-- `GRH_SIZE`. -/
def grhSize : ℕ := 40

/-- `MAX_MSG_SIZE`. -/
def maxMsgSize : ℕ := 256

/-- `BUF_SIZE`. -/
def udBufSize : ℕ := grhSize + maxMsgSize

/-- `NUM_RECV_BUFS`. -/
def numRecvBufs : ℕ := 16

/-- `qp_init_attr.cap.max_recv_wr`. -/
def udMaxRecvWr : ℕ := numRecvBufs + 4

/-- A route header. -/
structure Grh where
  raw : List UInt8
  length_raw : raw.length = grhSize
  deriving DecidableEq

/-- The command lines of the two processes: the sender is the client, the receiver the
server. -/
structure UdArgs where
  /-- `num_msgs`, an `int`. -/
  numMsgs : Side → ℤ
  numMsgs_lt : ∀ s, numMsgs s < 2 ^ 31

/-- The text of a datagram. -/
def udText (i : ℕ) : List UInt8 := ascii "UD datagram #" ++ decimal 0 i ++ ascii " from sender"

/-! ### The receiver -/

/-- A completion of the receiver; `payload` is, as a history, the datagram that has been
delivered with it. -/
structure UdWc where
  wrId : ℕ
  status : WcStatus
  byteLen : ℕ
  payload : List UInt8
  deriving DecidableEq, Repr

/-- A line the receiver has printed, and, as a history, the datagram of the completion
it was printed for. -/
structure UdLine where
  index : ℕ
  text : List UInt8
  length : ℕ
  payload : List UInt8
  deriving DecidableEq, Repr

/-- The places of the receiver; `i` is the counter of the loop it is in. -/
inductive UdRecvPc
  | syncWrite
  | syncRead
  | prePost (i : ℕ)
  | poll (i : ℕ)
  | print (i : ℕ) (wc : UdWc)
  | repost (i bufIdx : ℕ)
  /-- Behind its loop. -/
  | done
  /-- After a call that failed. -/
  | exited
  deriving DecidableEq, Repr

/-- The receiver and its queues. -/
structure UdReceiver where
  pc : UdRecvPc
  pool : List UInt8
  rq : List RecvWr
  cq : List UdWc
  lines : List UdLine
  deriving DecidableEq

/-- `recv_bufs[i]`, as a place of `recv_pool`. -/
def recvBuf (i : ℕ) : ℕ := i * udBufSize

namespace UdReceiver

/-- `post_ud_receive`. -/
def postReceive (r : UdReceiver) (buf wrId : ℕ) (pc : UdRecvPc) : UdReceiver :=
  { r with rq := r.rq ++ [⟨wrId, buf, udBufSize⟩], pc := pc }

/-- The test of the loop over the messages. -/
def loopTest (numMsgs : ℤ) (i : ℕ) : UdRecvPc := if (i : ℤ) < numMsgs then .poll i else .done

/-- The receiver prints a line: the string behind the header, and `byte_len` less the
size of the header, as unsigned numbers. -/
def printLine (r : UdReceiver) (i : ℕ) (wc : UdWc) : UdReceiver :=
  { r with
    lines := r.lines ++ [⟨i, str r.pool (recvBuf wc.wrId + grhSize),
      (wc.byteLen + 2 ^ 32 - grhSize) % 2 ^ 32, wc.payload⟩]
    pc := .repost i wc.wrId }

/-- A call of the receiver behind the synchronization; a failure ends the process. -/
def call (numMsgs : ℤ) (r : UdReceiver) (ok : Bool) : Option UdReceiver :=
  match r.pc with
  | .prePost i => some (if ok then
      r.postReceive (recvBuf i) i (if i + 1 < numRecvBufs then .prePost (i + 1)
        else loopTest numMsgs 0)
    else { r with pc := .exited })
  | .repost i b => some (if ok then r.postReceive (recvBuf b) b (loopTest numMsgs (i + 1))
    else { r with pc := .exited })
  | _ => none

/-- A call of `ibv_poll_cq` in `poll_completion`. -/
def poll (r : UdReceiver) (ret : PollRet) : Option UdReceiver :=
  match r.pc with
  | .poll i => match ret with
    | .failed => some { r with pc := .exited }
    | .empty => if r.cq = [] then some r else none
    | .one => match r.cq with
      | [] => none
      -- `poll_completion` returns -1 for a completion that failed
      | wc :: cq => some { r with cq := cq, pc := if wc.status = .success then .print i wc
          else .exited }
  | _ => none

/-- The device completes the receive `wr` with a datagram: the header and the payload go
into its buffer, where they fit. -/
def receive (r : UdReceiver) (wr : RecvWr) (rq : List RecvWr) (grh : Grh) (payload : List UInt8) :
    UdReceiver :=
  if grhSize + payload.length ≤ wr.length then
    { r with
      rq := rq
      pool := overlay r.pool wr.addr (grh.raw ++ payload)
      cq := r.cq ++ [⟨wr.wrId, .success, grhSize + payload.length, payload⟩] }
  else { r with rq := rq, cq := r.cq ++ [⟨wr.wrId, .locLenErr, 0, []⟩] }

end UdReceiver

/-! ### The sender -/

/-- The places of the sender; `i` is the counter of its loop. -/
inductive UdSendPc
  | syncWrite
  | syncRead
  | createAh
  | format (i : ℕ)
  | post (i len : ℕ)
  | poll (i : ℕ)
  /-- Behind its loop. -/
  | done
  /-- After a call that failed. -/
  | exited
  deriving DecidableEq, Repr

/-- A send request: `wr_id`, and how much of `send_buf` it names. -/
structure UdSendWr where
  wrId : ℕ
  length : ℕ
  deriving DecidableEq, Repr

/-- The sender and its queues; of a completion it looks at the status. -/
structure UdSender where
  pc : UdSendPc
  sendBuf : List UInt8
  sq : List UdSendWr
  cq : List WcStatus
  deriving DecidableEq

namespace UdSender

/-- The test of the loop. -/
def loopTest (numMsgs : ℤ) (i : ℕ) : UdSendPc := if (i : ℤ) < numMsgs then .format i else .done

/-- The sender formats a message and takes its length. -/
def cpu (s : UdSender) : Option UdSender :=
  match s.pc with
  | .format i =>
    let buf := snprintf s.sendBuf maxMsgSize (udText i)
    some { s with sendBuf := buf, pc := .post i (strlen buf 0 + 1) }
  | _ => none

/-- A call of the sender behind the synchronization; a failure ends the process. -/
def call (numMsgs : ℤ) (s : UdSender) (ok : Bool) : Option UdSender :=
  match s.pc with
  | .createAh => some { s with pc := if ok then loopTest numMsgs 0 else .exited }
  | .post i len => some (if ok then { s with sq := s.sq ++ [⟨i, len⟩], pc := .poll i }
    else { s with pc := .exited })
  | _ => none

/-- A call of `ibv_poll_cq` in `poll_completion`. -/
def poll (numMsgs : ℤ) (s : UdSender) (ret : PollRet) : Option UdSender :=
  match s.pc with
  | .poll i => match ret with
    | .failed => some { s with pc := .exited }
    | .empty => if s.cq = [] then some s else none
    | .one => match s.cq with
      | [] => none
      | status :: cq =>
        some { s with cq := cq, pc := if status = .success then loopTest numMsgs (i + 1)
          else .exited }
  | _ => none

end UdSender

/-! ### The system -/

/-- **The two processes and the fabric**: who has written its synchronization byte, the
datagrams that have been sent, how many have reached the receiver's queue pair, and how
many of these have been dropped there. -/
structure UdState where
  sender : UdSender
  receiver : UdReceiver
  synced : Side → Bool
  sent : List (List UInt8)
  arrived : ℕ
  dropped : ℕ

/-- What happens in a step. -/
inductive UdLabel
  /-- A process computes. -/
  | cpu (s : Side)
  /-- A call of a process returns, `true` for success. -/
  | call (s : Side) (ok : Bool)
  /-- A process calls `ibv_poll_cq`. -/
  | poll (s : Side) (ret : PollRet)
  /-- The device of the sender sends the next datagram. -/
  | transmit
  /-- A send completes with an error. -/
  | sendError (status : WcStatus)
  /-- The datagram number `n` reaches the receiver, and takes the posted receive at place
  `j` of the queue. -/
  | deliver (n j : ℕ) (grh : Grh)
  /-- A receive completes with an error. -/
  | recvError (j : ℕ) (status : WcStatus)
  deriving DecidableEq

/-- Both processes before the synchronization. -/
def udStart : UdState where
  sender := ⟨.syncWrite, List.replicate maxMsgSize 0, [], []⟩
  receiver := ⟨.syncWrite, List.replicate (numRecvBufs * udBufSize) 0, [], [], []⟩
  synced := fun _ => false
  sent := []
  arrived := 0
  dropped := 0

namespace UdState

variable (A : UdArgs) (st : UdState)

/-- `write(sockfd, &sync, 1)`, whose result is ignored. -/
def wrote (s : Side) (ok : Bool) : Side → Bool :=
  if ok then Function.update st.synced s true else st.synced

/-- A call of the sender. -/
def callSender (ok : Bool) : Option UdState :=
  match st.sender.pc with
  | .syncWrite =>
    some { st with sender := { st.sender with pc := .syncRead }, synced := st.wrote .client ok }
  -- `read` returns one byte only where the peer has written it; its result is ignored
  | .syncRead => if ok → st.synced .server then
      some { st with sender := { st.sender with pc := .createAh } } else none
  | _ => (st.sender.call (A.numMsgs .client) ok).map fun s => { st with sender := s }

/-- A call of the receiver. -/
def callReceiver (ok : Bool) : Option UdState :=
  match st.receiver.pc with
  | .syncWrite =>
    some { st with receiver := { st.receiver with pc := .syncRead }, synced := st.wrote .server ok }
  -- as for the sender
  | .syncRead => if ok → st.synced .client then
      some { st with receiver := { st.receiver with pc := .prePost 0 } } else none
  | _ => (st.receiver.call (A.numMsgs .server) ok).map fun r => { st with receiver := r }

/-- The receiver prints. -/
def cpuReceiver : Option UdState :=
  match st.receiver.pc with
  | .print i wc => some { st with receiver := st.receiver.printLine i wc }
  | _ => none

/-- The device of the sender takes the next request, and completes it. -/
def transmit : Option UdState :=
  match st.sender.sq with
  | [] => none
  | wr :: sq => some { st with
      sender := { st.sender with sq := sq, cq := st.sender.cq ++ [.success] }
      sent := st.sent ++ [st.sender.sendBuf.take wr.length] }

/-- A send completes with an error. -/
def sendError (status : WcStatus) : Option UdState :=
  match st.sender.sq with
  | [] => none
  | _ :: sq => if status = .success then none else
      some { st with sender := { st.sender with sq := sq, cq := st.sender.cq ++ [status] } }

/-- **A datagram reaches the queue pair of the receiver.** -/
def deliver (n j : ℕ) (grh : Grh) : Option UdState :=
  st.sent[n]?.bind fun payload =>
    -- nothing is posted: the datagram is dropped, and nobody is told
    if st.receiver.rq = [] then
      some { st with arrived := st.arrived + 1, dropped := st.dropped + 1 }
    else st.receiver.rq[j]?.map fun wr => { st with
      receiver := st.receiver.receive wr (st.receiver.rq.eraseIdx j) grh payload
      arrived := st.arrived + 1 }

/-- A receive completes with an error. -/
def recvError (j : ℕ) (status : WcStatus) : Option UdState :=
  if status = .success then none else
    st.receiver.rq[j]?.map fun wr => { st with receiver := { st.receiver with
      rq := st.receiver.rq.eraseIdx j
      cq := st.receiver.cq ++ [⟨wr.wrId, status, 0, []⟩] } }

/-- **A step of the system.** -/
def next (l : UdLabel) : Option UdState :=
  match l with
  | .cpu .client => st.sender.cpu.map fun s => { st with sender := s }
  | .cpu .server => st.cpuReceiver
  | .call .client ok => st.callSender A ok
  | .call .server ok => st.callReceiver A ok
  | .poll .client ret => (st.sender.poll (A.numMsgs .client) ret).map fun s =>
      { st with sender := s }
  | .poll .server ret => (st.receiver.poll ret).map fun r => { st with receiver := r }
  | .transmit => st.transmit
  | .sendError status => st.sendError status
  | .deliver n j grh => st.deliver n j grh
  | .recvError j status => st.recvError j status

end UdState

/-- **The datagram example**, with any results of its calls and any fabric. -/
def udLts (A : UdArgs) : Lts UdState UdLabel := Lts.ofFun (· = udStart) (UdState.next A)

/-! ### A sample -/

/-- One message. -/
def udOne : UdArgs := ⟨fun _ => 1, fun _ => by decide⟩

/-- A header. -/
def zeroGrh : Grh := ⟨List.replicate grhSize 0, List.length_replicate⟩

/-- Both sides synchronize, and the sender sends its datagram; the receiver has not posted
a buffer. -/
def udSend : List UdLabel :=
  [.call .server true, .call .client true, .call .client true, .call .client true, .cpu .client,
    .call .client true, .transmit]

end RdmaBook
